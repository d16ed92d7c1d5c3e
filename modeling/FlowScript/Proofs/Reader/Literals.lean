import FlowScript.Proofs.Reader.Lexer
import FlowScript.Proofs.Template.NormalForm
import Mathlib.Data.List.Basic

/-!
Literals and keys are read as what they were written for. Whatever a text holds, no character of it
ends its literal, opens an interpolation or breaks its line.
-/

namespace FlowScript.Reader

variable (bag : String)

theorem run_escape (tokens : List Token) {quote : Quote} (t : Template) {c d : Char}
    (h : unescaped? quote d = some c) :
    run bag ⟨tokens, .inside quote t⟩ ['\\', d] =
      some ⟨tokens, .inside quote (t.pushText (String.singleton c))⟩ := by
  have hslash : '\\' ≠ quote.char := by cases quote <;> decide
  have hopen : step bag ⟨tokens, .inside quote t⟩ '\\' = some ⟨tokens, .escape quote t⟩ :=
    (if_neg hslash).trans (if_pos rfl)
  have hclose : step bag ⟨tokens, .escape quote t⟩ d =
      some ⟨tokens, .inside quote (t.pushText (String.singleton c))⟩ := by
    simp only [step, h, Option.map_some]
  rw [run_cons_of_some bag hopen, run_singleton, hclose]

theorem run_escapedChar (tokens : List Token) (quote : Quote) (t : Template) (c : Char) :
    run bag ⟨tokens, .inside quote t⟩ (Literal.escapedChar quote.char c) =
      some ⟨tokens, .inside quote (t.pushText (String.singleton c))⟩ := by
  fun_cases Literal.escapedChar quote.char c with
  | case1 hc => exact run_escape bag tokens t (by rw [hc]; rfl)
  | case2 _ hc => exact run_escape bag tokens t (by rw [hc]; rfl)
  | case3 _ _ hc => exact run_escape bag tokens t (by rw [hc]; rfl)
  | case4 _ _ _ hc => exact run_escape bag tokens t (by rw [hc]; rfl)
  | case5 _ _ _ _ hc =>
    obtain ⟨rfl, hquote⟩ := hc
    cases quote with
    | single => contradiction
    | back => exact run_escape bag tokens t rfl
  | case6 _ _ _ _ _ hc => exact run_escape bag tokens t (by rw [hc]; cases quote <;> rfl)
  -- Without an escape the character neither ends the literal nor starts anything in it.
  | case7 hslash hfeed hreturn _ hdollar hquote =>
    have hbreak : isLineBreak c = false := by simp [isLineBreak, hfeed, hreturn]
    have hdollar' : ¬(c = '$' ∧ quote = .back) := by
      rintro ⟨hc, rfl⟩
      exact hdollar ⟨hc, rfl⟩
    rw [run_singleton]
    show stepInside tokens quote t c = _
    rw [stepInside, if_neg hquote, if_neg hslash, hbreak, if_neg hdollar']
    rfl

theorem run_escaped (tokens : List Token) (quote : Quote) (t : Template) (s : String) :
    run bag ⟨tokens, .inside quote t⟩ (Literal.escaped quote.char s).toList =
      some ⟨tokens, .inside quote (t.pushText s)⟩ := by
  have hchars : ∀ (cs : List Char) (u : Template),
      run bag ⟨tokens, .inside quote u⟩ (cs.flatMap (Literal.escapedChar quote.char)) =
        some ⟨tokens, .inside quote (u.pushText (String.ofList cs))⟩ := by
    intro cs
    induction cs with
    | nil =>
      intro u
      rw [String.ofList_nil, Template.pushText_empty]
      rfl
    | cons c cs ih =>
      intro u
      rw [List.flatMap_cons, run_append_of_some bag (run_escapedChar bag tokens quote u c), ih,
        Template.pushText_pushText, String.ofList_cons]
  rw [Literal.escaped, String.toList_ofList, hchars, String.ofList_toList]

theorem step_quote (tokens : List Token) (quote : Quote) :
    step bag ⟨tokens, .between⟩ quote.char = some ⟨tokens, .inside quote .empty⟩ := by
  cases quote <;> rfl

theorem step_endQuote (tokens : List Token) (quote : Quote) (t : Template) :
    step bag ⟨tokens, .inside quote t⟩ quote.char = some ⟨tokens ++ [.literal quote t], .between⟩ :=
  if_pos rfl

theorem run_singleQuoted (tokens : List Token) (s : String) :
    run bag ⟨tokens, .between⟩ (Literal.singleQuoted s).toList =
      some ⟨tokens ++ [.literal .single (.literal s)], .between⟩ := by
  have hquoted : (Literal.singleQuoted s).toList =
      Quote.single.char :: ((Literal.escaped Quote.single.char s).toList ++ [Quote.single.char]) := by
    simp [Literal.singleQuoted, Quote.char]
  rw [hquoted, run_cons_of_some bag (step_quote bag tokens .single),
    run_append_of_some bag (run_escaped bag tokens .single .empty s), run_singleton, step_endQuote]
  rfl

theorem run_interpolation_code (tokens : List Token) (t : Template) {cs : List Char}
    (hcs : ∀ c ∈ cs, c ≠ '\x7d' ∧ isLineBreak c = false) (code : List Char) :
    run bag ⟨tokens, .interpolation t code⟩ cs = some ⟨tokens, .interpolation t (code ++ cs)⟩ := by
  induction cs generalizing code with
  | nil => rw [List.append_nil]; rfl
  | cons c cs ih =>
    obtain ⟨⟨hbrace, hbreak⟩, hcs⟩ := List.forall_mem_cons.mp hcs
    have hstep : step bag ⟨tokens, .interpolation t code⟩ c =
        some ⟨tokens, .interpolation t (code ++ [c])⟩ := by
      simp [step, hbrace, hbreak]
    rw [run_cons_of_some bag hstep, ih hcs, List.append_assoc, List.singleton_append]

theorem lookedUp?_lookup {name : String} (hname : Literal.isPlainKeyChars name.toList) :
    lookedUp? bag (bag.toList ++ '.' :: name.toList) = some name := by
  have hcode : (bag.toList ++ ['.']).isPrefixOf? (bag.toList ++ '.' :: name.toList) =
      some name.toList := by
    rw [List.isPrefixOf?_eq_some_iff_append_eq, List.append_assoc, List.singleton_append]
  rw [lookedUp?, hcode]
  simp only [hname, if_true, String.ofList_toList]

theorem run_interpolation (tokens : List Token) (t : Template)
    (hbag : Literal.isPlainKeyChars bag.toList) {name : String}
    (hname : Literal.isPlainKeyChars name.toList) :
    run bag ⟨tokens, .inside .back t⟩ ("$\x7b" ++ Template.lookup bag name ++ "\x7d").toList =
      some ⟨tokens, .inside .back (t.pushVar name)⟩ := by
  have hpart : ∀ c, Literal.isKeyPart c → c ≠ '\x7d' ∧ isLineBreak c = false := by
    intro c hc
    have hfeed : c ≠ '\n' := ne_of_isKeyPart hc (by decide)
    have hreturn : c ≠ '\r' := ne_of_isKeyPart hc (by decide)
    exact ⟨ne_of_isKeyPart hc (by decide), by simp [isLineBreak, hfeed, hreturn]⟩
  have hcode : ∀ c ∈ bag.toList ++ '.' :: name.toList, c ≠ '\x7d' ∧ isLineBreak c = false := by
    intro c hc
    rcases List.mem_append.mp hc with hc | hc
    · exact hpart c (isKeyPart_of_isPlainKeyChars hbag c hc)
    · rcases List.mem_cons.mp hc with rfl | hc
      · decide
      · exact hpart c (isKeyPart_of_isPlainKeyChars hname c hc)
  have htext : ("$\x7b" ++ Template.lookup bag name ++ "\x7d").toList =
      '$' :: '\x7b' :: ((bag.toList ++ '.' :: name.toList) ++ ['\x7d']) := by
    simp [Template.lookup]
  have hdollar : step bag ⟨tokens, .inside .back t⟩ '$' = some ⟨tokens, .dollar t⟩ := rfl
  have hopen : step bag ⟨tokens, .dollar t⟩ '\x7b' = some ⟨tokens, .interpolation t []⟩ := rfl
  rw [htext, run_cons_of_some bag hdollar, run_cons_of_some bag hopen,
    run_append_of_some bag (run_interpolation_code bag tokens t hcode []), run_singleton]
  simp only [step, List.nil_append, if_true, lookedUp?_lookup bag hname, Option.map_some]

def segmentText : Segment → String
  | .text s => Literal.escaped backquote s
  | .var name => "$\x7b" ++ Template.lookup bag name ++ "\x7d"

theorem run_segments (tokens : List Token) (hbag : Literal.isPlainKeyChars bag.toList)
    {segments : List Segment}
    (hnames : ∀ name, .var name ∈ segments → Literal.isPlainKeyChars name.toList) (t : Template) :
    run bag ⟨tokens, .inside .back t⟩ (segments.flatMap fun s => (segmentText bag s).toList) =
      some ⟨tokens, .inside .back (segments.foldl Template.pushSegment t)⟩ := by
  induction segments generalizing t with
  | nil => rfl
  | cons segment rest ih =>
    have hsegment : run bag ⟨tokens, .inside .back t⟩ (segmentText bag segment).toList =
        some ⟨tokens, .inside .back (t.pushSegment segment)⟩ := by
      cases segment with
      | text s => exact run_escaped bag tokens .back t s
      | var name => exact run_interpolation bag tokens t hbag (hnames name (List.mem_cons_self ..))
    rw [List.flatMap_cons, run_append_of_some bag hsegment, List.foldl_cons]
    exact ih (fun name h => hnames name (List.mem_cons_of_mem _ h)) _

def literalQuote (t : Template) : Quote :=
  if t.hasVariables then .back else .single

theorem literalText_of_hasVariables {t : Template} (h : t.hasVariables) :
    (t.literalText bag).toList =
      backquote :: ((t.segments.flatMap fun s => (segmentText bag s).toList) ++ [backquote]) := by
  have htext : t.literalText bag = String.singleton backquote ++
      String.join (t.segments.map (segmentText bag)) ++ String.singleton backquote := by
    rw [Template.literalText, if_pos h]
    rfl
  rw [htext]
  simp [String.toList_join, List.flatMap_map]

theorem literal_plainText {t : Template} (hnormal : t.IsNormal) (h : ¬t.hasVariables) :
    .literal t.plainText = t := by
  obtain ⟨segments⟩ := t
  cases segments with
  | nil => rfl
  | cons segment rest =>
    cases segment with
    | var name => exact absurd rfl h
    | text s =>
      have hs : s ≠ "" := hnormal.nonempty s (List.mem_cons_self ..)
      cases rest with
      | nil =>
        have hplain : Template.plainText ⟨[.text s]⟩ = s := by simp [Template.plainText]
        rw [hplain]
        exact congrArg Template.mk (if_neg hs)
      | cons next rest =>
        cases next with
        | var name => exact absurd rfl h
        | text u => exact absurd ⟨rfl, rfl⟩ (List.isChain_cons_cons.mp hnormal.apart).1

theorem plainText_literal (s : String) : (Template.literal s).plainText = s := by
  have hliteral : Template.literal s = ⟨if s = "" then [] else [.text s]⟩ := rfl
  rw [hliteral]
  split
  · rename_i hs
    rw [hs]
    rfl
  · simp [Template.plainText]

theorem run_literalText (tokens : List Token) (hbag : Literal.isPlainKeyChars bag.toList)
    {t : Template} (hnormal : t.IsNormal)
    (hnames : ∀ name, .var name ∈ t.segments → Literal.isPlainKeyChars name.toList) :
    run bag ⟨tokens, .between⟩ (t.literalText bag).toList =
      some ⟨tokens ++ [.literal (literalQuote t) t], .between⟩ := by
  by_cases h : t.hasVariables
  · have hsegments := run_segments bag tokens hbag hnames .empty
    have hrebuilt : t.segments.foldl Template.pushSegment .empty = t :=
      Template.append_of_isNormal hnormal
    rw [hrebuilt] at hsegments
    have hopen : step bag ⟨tokens, .between⟩ backquote = some ⟨tokens, .inside .back .empty⟩ :=
      step_quote bag tokens .back
    rw [literalText_of_hasVariables bag h, run_cons_of_some bag hopen,
      run_append_of_some bag hsegments, run_singleton, literalQuote, if_pos h]
    exact step_endQuote bag tokens .back t
  · rw [Template.literalText, if_neg h, run_singleQuoted, literal_plainText hnormal h,
      literalQuote, if_neg h]

def keyToken (s : String) : Token :=
  if Literal.isPlainKeyChars s.toList then .word s else .literal .single (.literal s)

theorem run_word (tokens : List Token) {cs : List Char} (hcs : ∀ c ∈ cs, Literal.isKeyPart c)
    (before : List Char) :
    run bag ⟨tokens, .word before⟩ cs = some ⟨tokens, .word (before ++ cs)⟩ := by
  induction cs generalizing before with
  | nil => rw [List.append_nil]; rfl
  | cons c cs ih =>
    obtain ⟨hc, hcs⟩ := List.forall_mem_cons.mp hcs
    have hstep : step bag ⟨tokens, .word before⟩ c = some ⟨tokens, .word (before ++ [c])⟩ :=
      if_pos hc
    rw [run_cons_of_some bag hstep, ih hcs, List.append_assoc, List.singleton_append]

theorem run_key (tokens : List Token) (s : String) :
    run bag ⟨tokens, .between⟩ ((Literal.key s).toList ++ [':']) =
      some ⟨tokens ++ [keyToken s, .colon], .between⟩ := by
  rw [Literal.key, keyToken]
  by_cases h : Literal.isPlainKeyChars s.toList
  · have hparts := isKeyPart_of_isPlainKeyChars h
    rw [if_pos h, if_pos h]
    cases hs : s.toList with
    | nil => rw [hs] at h; contradiction
    | cons c cs =>
      rw [hs] at h hparts
      have hopen : step bag ⟨tokens, .between⟩ c = some ⟨tokens, .word [c]⟩ :=
        stepBetween_of_isKeyStart tokens (Bool.and_eq_true_iff.mp h).1
      have hword := run_word bag tokens (List.forall_mem_cons.mp hparts).2 [c]
      rw [List.cons_append, run_cons_of_some bag hopen, run_append_of_some bag hword,
        run_singleton, List.singleton_append, ← hs]
      show some (Lexer.mk (tokens ++ [.word (String.ofList s.toList)] ++ [.colon]) .between) = _
      rw [String.ofList_toList, List.append_assoc]
      rfl
  · rw [if_neg h, if_neg h, run_append_of_some bag (run_singleQuoted bag tokens s), run_singleton]
    show some _ = some _
    rw [List.append_assoc]
    rfl

end FlowScript.Reader
