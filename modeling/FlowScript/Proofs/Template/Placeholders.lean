import FlowScript.Proofs.Template.NormalForm
import FlowScript.Proofs.Text.Trim

/-! The variables of templates, and the placeholders of the texts that they are read from. Characters
that no placeholder holds may be cut off at either end of a text. -/

namespace FlowScript

open Text

namespace Template

theorem varNames_append_segments (xs ys : List Segment) :
    (Template.mk (xs ++ ys)).varNames = (Template.mk xs).varNames ++ (Template.mk ys).varNames :=
  List.filterMap_append

theorem varNames_cons_var (name : String) (rest : List Segment) :
    (Template.mk (.var name :: rest)).varNames = name :: (Template.mk rest).varNames := rfl

theorem varNames_cons_text (s : String) (rest : List Segment) :
    (Template.mk (.text s :: rest)).varNames = (Template.mk rest).varNames := rfl

@[simp] theorem varNames_empty : empty.varNames = [] := rfl

@[simp] theorem varNames_pushText (t : Template) (s : String) :
    (t.pushText s).varNames = t.varNames := by
  obtain ⟨segments⟩ := t
  unfold pushText
  fun_induction appendText s segments with
  | case1 => rfl
  | case2 => rfl
  | case3 => rfl
  | case4 segment rest hmerge ih =>
    cases segment with
    | text u => exact ih
    | var name => exact congrArg (name :: ·) ih

@[simp] theorem varNames_pushVar (t : Template) (name : String) :
    (t.pushVar name).varNames = t.varNames ++ [name] := by
  unfold pushVar
  rw [varNames_append_segments]
  rfl

@[simp] theorem varNames_literal (s : String) : (literal s).varNames = [] :=
  varNames_pushText empty s

@[simp] theorem varNames_append (t u : Template) : (t ++ u).varNames = t.varNames ++ u.varNames := by
  obtain ⟨segments⟩ := u
  change (segments.foldl pushSegment t).varNames = _
  induction segments generalizing t with
  | nil => exact (List.append_nil _).symm
  | cons segment rest ih =>
    rw [List.foldl_cons, ih]
    cases segment with
    | text s => rw [pushSegment, varNames_pushText, varNames_cons_text]
    | var name =>
      rw [pushSegment, varNames_pushVar, varNames_cons_var, List.append_assoc, List.singleton_append]

def Token.name? : Token → Option String
  | .var name => some name
  | .text _ | .bare => none

/-- The names of the placeholders of a text, in order and with repetitions. -/
def placeholders (s : String) : List String :=
  (scan s).filterMap Token.name?

theorem varNames_ofTokens (bareText : String) (tokens : List Token) (start : Template) :
    (ofTokens bareText tokens start).varNames =
      start.varNames ++ tokens.filterMap Token.name? := by
  rw [ofTokens_eq_append, varNames_append]
  congr 1
  rw [varNames, List.filterMap_map]
  congr 1
  funext token
  cases token <;> rfl

@[simp] theorem varNames_parse (s : String) : (parse s).varNames = placeholders s :=
  varNames_ofTokens "$" (scan s) empty

/-- No placeholder holds the character. -/
def IsInert (c : Char) : Prop :=
  c ≠ '$' ∧ c ≠ '\x7b' ∧ c ≠ '\x7d' ∧ isIdentPart c = false

theorem IsInert.isIdentStart {c : Char} (h : IsInert c) : isIdentStart c = false := by
  have hpart := h.2.2.2
  simp only [isIdentPart, Text.isIdentStart, Char.isAlphanum, Bool.or_eq_false_iff] at hpart ⊢
  exact ⟨hpart.1.1, hpart.2⟩

theorem takeWhile_append_neg {p : Char → Bool} {c : Char} (h : p c = false) (cs : List Char) :
    (cs ++ [c]).takeWhile p = cs.takeWhile p := by
  induction cs with
  | nil => simp [h]
  | cons d ds ih => by_cases hd : p d <;> simp [hd, ih]

theorem dropWhile_append_neg {p : Char → Bool} {c : Char} (h : p c = false) (cs : List Char) :
    (cs ++ [c]).dropWhile p = cs.dropWhile p ++ [c] := by
  induction cs with
  | nil => simp [h]
  | cons d ds ih => by_cases hd : p d <;> simp [hd, ih]

theorem leadingIdent_append_inert {c : Char} (h : IsInert c) (cs : List Char) :
    leadingIdent (cs ++ [c]) = leadingIdent cs := by
  cases cs with
  | nil => simp [leadingIdent, h.isIdentStart]
  | cons d ds => simp [leadingIdent, takeWhile_append_neg h.2.2.2]

theorem afterIdent_append_inert {c : Char} (h : IsInert c) (cs : List Char) :
    afterIdent (cs ++ [c]) = afterIdent cs ++ [c] := by
  cases cs with
  | nil => simp [afterIdent, h.isIdentStart]
  | cons d ds =>
    by_cases hd : isIdentStart d <;> simp [afterIdent, hd, dropWhile_append_neg h.2.2.2]

theorem cons_ne_append_singleton {c x : Char} {cs : List Char} (hc : c ≠ x)
    (hcs : ∀ rest, cs = x :: rest → False) (rest : List Char) (h : cs ++ [c] = x :: rest) :
    False := by
  cases cs with
  | nil => exact hc (List.cons.inj h).1
  | cons d ds =>
    obtain rfl := (List.cons.inj h).1
    exact hcs ds rfl

theorem afterDollar_append_inert {c : Char} (h : IsInert c) (cs : List Char) :
    Token.afterDollar (cs ++ [c]) =
      ((Token.afterDollar cs).1, (Token.afterDollar cs).2 ++ [c]) := by
  have hident := leadingIdent_append_inert h
  have hrest := afterIdent_append_inert h
  fun_cases Token.afterDollar cs with
  | case1 cs => rfl
  | case2 cs d name rest hafter hname =>
    rw [List.cons_append, Token.afterDollar, hident, hrest, hafter, hname]
    rfl
  | case3 cs hne =>
    rw [List.cons_append, Token.afterDollar, hident, hrest]
    split
    · rename_i d name rest hname hafter
      cases hcs : afterIdent cs with
      | nil =>
        rw [hcs] at hafter
        exact absurd (List.cons.inj hafter).1 h.2.2.1
      | cons e es =>
        rw [hcs, List.cons_append] at hafter
        obtain rfl := (List.cons.inj hafter).1
        exact (hne d name es hname hcs).elim
    · rfl
  | case4 cs hdollar hbrace hname =>
    rw [Token.afterDollar, hident, hname]
    · exact fun rest => cons_ne_append_singleton h.1 hdollar rest
    · exact fun rest => cons_ne_append_singleton h.2.1 hbrace rest
  | case5 cs hdollar hbrace hname =>
    rw [Token.afterDollar, hident, hrest]
    · split
      · exact (hname ‹_›).elim
      · rfl
    · exact fun rest => cons_ne_append_singleton h.1 hdollar rest
    · exact fun rest => cons_ne_append_singleton h.2.1 hbrace rest

def namesIn (cs : List Char) : List String :=
  (Token.scanChars cs).filterMap Token.name?

theorem namesIn_append_inert {c : Char} (h : IsInert c) (cs : List Char) :
    namesIn (cs ++ [c]) = namesIn cs := by
  unfold namesIn
  fun_induction Token.scanChars cs with
  | case1 =>
    rw [List.nil_append, Token.scanChars, if_neg h.1]
    simp [Token.scanChars, Token.name?]
  | case2 cs ih =>
    rw [List.cons_append, Token.scanChars, if_pos rfl, afterDollar_append_inert h]
    simp [List.filterMap_cons, ih]
  | case3 d ds hd ih =>
    rw [List.cons_append, Token.scanChars, if_neg hd, List.dropWhile_append]
    simp only [List.filterMap_cons, Token.name?]
    split
    · rename_i hempty
      have hdrop : [c].dropWhile (· != '$') = [] := by simp [h.1]
      rw [List.isEmpty_iff.mp hempty, hdrop]
    · exact ih

theorem namesIn_cons {c : Char} (h : c ≠ '$') (cs : List Char) : namesIn (c :: cs) = namesIn cs := by
  unfold namesIn
  rw [Token.scanChars, if_neg h, List.filterMap_cons]
  cases cs with
  | nil => simp [Token.name?]
  | cons d ds =>
    by_cases hd : d = '$'
    · simp [hd, Token.name?]
    · rw [Token.scanChars.eq_def (d :: ds)]
      simp [hd, Token.name?, List.filterMap_cons]

theorem namesIn_append_all {tail : List Char} (h : ∀ c ∈ tail, IsInert c) (cs : List Char) :
    namesIn (cs ++ tail) = namesIn cs := by
  induction tail generalizing cs with
  | nil => rw [List.append_nil]
  | cons c tail ih =>
    rw [List.append_cons, ih (fun d hd => h d (List.mem_cons_of_mem c hd))]
    exact namesIn_append_inert (h c List.mem_cons_self) cs

theorem namesIn_dropTail {p : Char → Bool} (hp : ∀ c, p c → IsInert c) (cs : List Char) :
    namesIn (dropTail p cs) = namesIn cs := by
  obtain ⟨tail, hcs, htail⟩ := exists_eq_dropTail_append p cs
  have h := namesIn_append_all (fun c hc => hp c (htail c hc)) (dropTail p cs)
  rw [← hcs] at h
  exact h.symm

theorem namesIn_dropWhile {p : Char → Bool} (hp : ∀ c, p c → IsInert c) (cs : List Char) :
    namesIn (cs.dropWhile p) = namesIn cs := by
  induction cs with
  | nil => rfl
  | cons c cs ih =>
    by_cases hc : p c
    · rw [List.dropWhile_cons_of_pos hc, ih, namesIn_cons (hp c hc).1]
    · rw [List.dropWhile_cons_of_neg hc]

theorem isInert_of_isBlank (c : Char) (h : isBlank c) : IsInert c := by
  refine ⟨?_, ?_, ?_, isIdentPart_of_isBlank h⟩
  all_goals
    rintro rfl
    exact absurd h (by decide)

@[simp] theorem placeholders_trim (s : String) : placeholders (trim s) = placeholders s := by
  change namesIn (String.ofList (trimChars s.toList)).toList = namesIn s.toList
  rw [String.toList_ofList, trimChars, namesIn_dropTail isInert_of_isBlank,
    namesIn_dropWhile isInert_of_isBlank]

@[simp] theorem placeholders_trimEnd_slash (s : String) :
    placeholders (trimEnd '/' s) = placeholders s := by
  change namesIn (String.ofList (dropTail (· == '/') s.toList)).toList = namesIn s.toList
  rw [String.toList_ofList]
  refine namesIn_dropTail (fun c hc => ?_) s.toList
  obtain rfl : c = '/' := by simpa using hc
  exact ⟨by decide, by decide, by decide, by decide⟩

end Template

end FlowScript
