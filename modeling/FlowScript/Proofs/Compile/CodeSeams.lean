import FlowScript.Flow.Validate
import FlowScript.Proofs.Compile.CheckCondition
import FlowScript.Proofs.Compile.ResultName
import FlowScript.Proofs.Json.Squeeze
import Mathlib.Data.List.Chain

/-! The seams of code fragments. The code of a check or of a path is that of its tokens, with
nothing in between, so whether a look-up in the bag is read as one is decided by the neighbours of
its placeholder. -/

namespace FlowScript

open Text

namespace Template

section Tokens

/-- A placeholder, or a dollar sign that stands for a result. -/
def Token.isReference : Token → Bool
  | .text _ => false
  | .var _ | .bare => true

/-- The second of two neighbours goes on with the name of a reference, or it is a look-up and the
first ends with a word or a point that the look-up is read as a part of. -/
def Token.runsInto (isWord : Char → Bool) (first : Token) : Token → Bool
  | .text s => first.isReference && s.toList.head?.any isWord
  | .bare => first.isReference
  | .var _ =>
    match first with
    | .text s => s.toList.getLast?.any fun c => isWord c || c == '.'
    | .var _ | .bare => true

def codeOf (bag result : String) (tokens : List Token) : String :=
  String.join (tokens.map (Token.code bag result))

/-- Between the code in front of it and the code behind it, a reference is a word of its own, and a
look-up follows no point. -/
structure Token.IsApart (isWord : Char → Bool) (before : String) (token : Token)
    (behind : String) : Prop where
  behind : ∀ c ∈ behind.toList.head?, ¬isWord c
  before : ∀ name, token = .var name → ∀ c ∈ before.toList.getLast?, ¬isWord c ∧ c ≠ '.'

/-- All references of a code fragment are words of their own in it. -/
def ReferencesApart (isWord : Char → Bool) (bag result : String) (tokens : List Token) : Prop :=
  ∀ before token behind, tokens = before ++ token :: behind → token.isReference →
    token.IsApart isWord (codeOf bag result before) (codeOf bag result behind)

theorem ReadAs.ne_empty_of_text_mem {cs : List Char} {tokens : List Token} (h : ReadAs cs tokens) :
    ∀ s, .text s ∈ tokens → s ≠ "" := by
  induction h with
  | nil => exact fun s hs => absurd hs List.not_mem_nil
  | cons htoken _ ih =>
    intro s hs
    rcases List.mem_cons.mp hs with rfl | hs
    · cases htoken with
      | text hne => exact hne
      | escape => decide
    · exact ih s hs

end Tokens

section Seams

variable {isWord : Char → Bool} {bag result : String}

def StartsWord (isWord : Char → Bool) (s : String) : Prop :=
  ∃ c ∈ s.toList.head?, isWord c

theorem startsWord_of_isName (hword : ∀ c, isIdentPart c → isWord c) {s : String} (h : IsName s) :
    StartsWord isWord s := by
  obtain ⟨first, rest, hs, hletter, _⟩ := h
  exact ⟨first, by simp [hs], hword first (isIdentPart_iff.mpr (.inl hletter))⟩

theorem StartsWord.append {s : String} (h : StartsWord isWord s) (t : String) :
    StartsWord isWord (s ++ t) := by
  obtain ⟨c, hc, hword⟩ := h
  obtain ⟨rest, hs⟩ := List.head?_eq_some_iff.mp hc
  exact ⟨c, by simp [hs], hword⟩

theorem head?_codeOf_cons {token : Token} (h : token.code bag result ≠ "") (rest : List Token) :
    (codeOf bag result (token :: rest)).toList.head? = (token.code bag result).toList.head? := by
  obtain ⟨c, cs, hcode⟩ := List.exists_cons_of_ne_nil (mt String.toList_eq_nil_iff.mp h)
  simp [codeOf, hcode]

theorem getLast?_codeOf_concat {token : Token} (h : token.code bag result ≠ "")
    (init : List Token) :
    (codeOf bag result (init ++ [token])).toList.getLast? =
      (token.code bag result).toList.getLast? := by
  have hcode := mt String.toList_eq_nil_iff.mp h
  unfold codeOf
  rw [List.map_append, String.join_append, String.toList_append, List.map_singleton,
    String.join_cons, String.join_nil, String.append_empty, List.getLast?_append_of_ne_nil _ hcode]

theorem startsWord_code (hbag : StartsWord isWord bag) (hresult : StartsWord isWord result)
    {token : Token} (h : token.isReference) : StartsWord isWord (token.code bag result) := by
  cases token with
  | text s => cases h
  | var name =>
    change StartsWord isWord (bag ++ "." ++ name)
    exact (hbag.append ".").append name
  | bare => exact hresult

theorem StartsWord.ne_empty {s : String} (h : StartsWord isWord s) : s ≠ "" := by
  obtain ⟨c, hc, _⟩ := h
  rintro rfl
  cases hc

theorem code_ne_empty (hbag : StartsWord isWord bag) (hresult : StartsWord isWord result)
    {token : Token} (htext : ∀ s, token = .text s → s ≠ "") : token.code bag result ≠ "" := by
  by_cases href : token.isReference
  · exact (startsWord_code hbag hresult href).ne_empty
  · cases token with
    | text s => exact htext s rfl
    | var name => exact absurd rfl href
    | bare => exact absurd rfl href

theorem runsInto_iff_startsWord (hbag : StartsWord isWord bag) (hresult : StartsWord isWord result)
    {first second : Token} (h : first.isReference) :
    first.runsInto isWord second ↔ StartsWord isWord (second.code bag result) := by
  cases second with
  | text s =>
    rw [Token.runsInto, h, Bool.true_and, Option.any_eq_true]
    rfl
  | bare => exact iff_of_true h hresult
  | var name =>
    refine iff_of_true ?_ (startsWord_code hbag hresult rfl)
    cases first with
    | text s => cases h
    | var other => rfl
    | bare => rfl

theorem eq_of_runsInto {first second : Token} (h : ¬first.isReference)
    (hruns : first.runsInto isWord second) : ∃ s name, first = .text s ∧ second = .var name := by
  cases first with
  | var name => exact absurd rfl h
  | bare => exact absurd rfl h
  | text s =>
    cases second with
    | text t => cases hruns
    | bare => cases hruns
    | var name => exact ⟨s, name, rfl, rfl⟩

/-- A text runs into a look-up exactly if it ends with a character of a word or with a point. -/
theorem not_runsInto_var_iff {s name : String} :
    ¬(Token.text s).runsInto isWord (.var name) ↔
      ∀ c ∈ s.toList.getLast?, ¬isWord c ∧ c ≠ '.' := by
  simp only [Token.runsInto]
  cases s.toList.getLast? with
  | none => simp
  | some c => simp

/-- The references of a fragment are apart exactly if no token runs into the next one. -/
theorem referencesApart_iff (hbag : StartsWord isWord bag) (hresult : StartsWord isWord result)
    {tokens : List Token} (htexts : ∀ s, .text s ∈ tokens → s ≠ "") :
    ReferencesApart isWord bag result tokens ↔
      tokens.IsChain fun first second => ¬first.runsInto isWord second := by
  have hcode {token : Token} (h : token ∈ tokens) : token.code bag result ≠ "" :=
    code_ne_empty hbag hresult fun s hs => htexts s (hs ▸ h)
  constructor
  · intro hapart
    rw [List.isChain_iff_forall_rel_of_append_cons_cons]
    rintro first second before behind rfl hruns
    by_cases href : first.isReference
    · obtain ⟨c, hc, hword⟩ := (runsInto_iff_startsWord hbag hresult href).mp hruns
      rw [← head?_codeOf_cons (hcode (by simp)) behind] at hc
      exact (hapart before first (second :: behind) rfl href).behind c hc hword
    · obtain ⟨s, name, rfl, rfl⟩ := eq_of_runsInto href hruns
      have htext : .text s ∈ before ++ .text s :: .var name :: behind := by simp
      have hlast := getLast?_codeOf_concat (hcode htext) before
      have hvar := hapart (before ++ [.text s]) (.var name) behind (by simp) rfl
      have hbefore := hvar.before name rfl
      rw [hlast] at hbefore
      exact not_runsInto_var_iff.mpr hbefore hruns
  · rintro hchain before token behind rfl href
    constructor
    · intro c hc hword
      cases behind with
      | nil => cases hc
      | cons second rest =>
        have hruns := (List.isChain_append_cons_cons.mp hchain).2.1
        rw [head?_codeOf_cons (hcode (by simp)) rest] at hc
        exact hruns ((runsInto_iff_startsWord hbag hresult href).mpr ⟨c, hc, hword⟩)
    · rintro name rfl
      rcases List.eq_nil_or_concat before with rfl | ⟨init, last, rfl⟩
      · exact fun c hc => nomatch hc
      · rw [List.concat_eq_append] at hchain hcode ⊢
        rw [getLast?_codeOf_concat (hcode (by simp))]
        -- The chain splits between the last token in front and the look-up.
        rw [List.append_assoc] at hchain
        have hruns := (List.isChain_append_cons_cons.mp hchain).2.1
        cases last with
        | text s => exact not_runsInto_var_iff.mp hruns
        | var other => exact absurd rfl hruns
        | bare => exact absurd rfl hruns

end Seams

end Template

section Fragments

open Template

variable {isWord : Char → Bool} {bag : String}

def extractionLead (result path : String) : List Token :=
  if (scan path).head? = some .bare then []
  else if startsWithAccess path.toList then [.text result]
  else [.text (result ++ ".")]

def extractionTokens (result path : String) : List Token :=
  extractionLead result (trim path) ++ scan (trim path)

theorem Check.codeText_condition (bag : String) (check : Check) :
    check.condition.codeText bag = codeOf bag checkParam check.codeTokens := by
  rw [condition_eq_ofTokens, codeText_ofTokens, codeText_empty, String.empty_append, codeOf]

theorem codeText_extraction (bag result path : String) :
    (extraction result path).codeText bag = codeOf bag result (extractionTokens result path) := by
  unfold extraction extractionTokens extractionLead codeOf
  rw [codeText_ofTokens, List.map_append, String.join_append]
  congr 1
  split
  · rfl
  · split <;> simp [Token.code]

theorem Check.ne_empty_of_text_mem_codeTokens (check : Check) :
    ∀ s, .text s ∈ check.codeTokens → s ≠ "" := by
  intro s hs
  obtain ⟨token, htoken, heq⟩ := List.mem_map.mp hs
  split at heq
  · rw [← Token.text.inj heq]
    exact check.value.compact_ne_empty
  · subst heq
    exact (readAs_scanChars _).ne_empty_of_text_mem s htoken

theorem ne_empty_of_text_mem_extractionTokens {result : String} (hresult : result ≠ "")
    (path : String) : ∀ s, .text s ∈ extractionTokens result path → s ≠ "" := by
  intro s hs
  rcases List.mem_append.mp hs with hs | hs
  · unfold extractionLead at hs
    split at hs
    · exact absurd hs List.not_mem_nil
    · split at hs
      · rwa [Token.text.inj (List.mem_singleton.mp hs)]
      · rw [Token.text.inj (List.mem_singleton.mp hs)]
        simp
  · exact (readAs_scanChars _).ne_empty_of_text_mem s hs

theorem head?_scan_ne_var {path : String} (h : startsWithAccess path.toList) (name : String) :
    (scan path).head? ≠ some (.var name) := by
  unfold scan
  cases hpath : path.toList with
  | nil => simp [Token.scanChars]
  | cons c cs =>
    have hc : c = '.' ∨ c = '[' := by simpa [hpath, startsWithAccess] using h
    have hdollar : c ≠ '$' := by rcases hc with rfl | rfl <;> decide
    rw [Token.scanChars, if_neg hdollar]
    simp

theorem isChain_extractionTokens_iff (result path : String) :
    (extractionTokens result path).IsChain (fun first second => ¬first.runsInto isWord second) ↔
      (scan (trim path)).IsChain (fun first second => ¬first.runsInto isWord second) ∧
        ∀ name, (scan (trim path)).head? ≠ some (.var name) := by
  have htext {lead : String} {second : Token} (h : ∀ name, second ≠ .var name) :
      ¬(Token.text lead).runsInto isWord second := by
    cases second with
    | text s => exact Bool.noConfusion
    | bare => exact Bool.noConfusion
    | var name => exact absurd rfl (h name)
  unfold extractionTokens extractionLead
  by_cases hbare : (scan (trim path)).head? = some .bare
  · have hvar (name : String) : (scan (trim path)).head? ≠ some (.var name) := by simp [hbare]
    rw [if_pos hbare, List.nil_append]
    exact (and_iff_left hvar).symm
  · rw [if_neg hbare]
    by_cases haccess : startsWithAccess (trim path).toList
    · have hvar := head?_scan_ne_var haccess
      rw [if_pos haccess, List.singleton_append, List.isChain_cons, and_iff_left hvar]
      refine and_iff_right fun second hsecond => htext fun name heq => hvar name ?_
      rwa [← heq]
    · rw [if_neg haccess, List.singleton_append, List.isChain_cons, and_comm]
      refine and_congr_right fun _ => ⟨fun hlead name hname => ?_, fun hvar second hsecond => ?_⟩
      · exact hlead _ hname (by simp [Token.runsInto])
      · exact htext fun name heq => hvar name (heq ▸ hsecond)

theorem StepRef.startsWord_resultVar (hword : ∀ c, isIdentPart c → isWord c) (ref : StepRef) :
    StartsWord isWord ref.resultVar := by
  have hpre : StartsWord isWord "req_" := ⟨'r', rfl, hword 'r' (by decide)⟩
  have hpost : StartsWord isWord "post_req_" := ⟨'p', rfl, hword 'p' (by decide)⟩
  cases ref with
  | precondition i => exact hpre.append _
  | postcondition i => exact hpost.append _
  | item g s => exact ((hpre.append _).append _).append _

/-- The code of the condition of a check, or of what a path takes from a result, is that of its
tokens, and its references are words of their own exactly if no token runs into the next one. A path
that is appended to the result must not start with a look-up, which would follow the point in
between. -/
theorem referencesApart_fragments_iff (hword : ∀ c, isIdentPart c → isWord c) (hbag : IsName bag) :
    (∀ check : Check,
      (Expr.code check.condition).render bag = codeOf bag checkParam check.codeTokens ∧
      (ReferencesApart isWord bag checkParam check.codeTokens ↔
        check.codeTokens.IsChain fun first second => ¬first.runsInto isWord second)) ∧
    ∀ (ref : StepRef) (path : String),
      (Expr.code (extraction ref.resultVar path)).render bag =
        codeOf bag ref.resultVar (extractionTokens ref.resultVar path) ∧
      (ReferencesApart isWord bag ref.resultVar (extractionTokens ref.resultVar path) ↔
        (scan (trim path)).IsChain (fun first second => ¬first.runsInto isWord second) ∧
          ∀ name, (scan (trim path)).head? ≠ some (.var name)) := by
  have hbag := startsWord_of_isName hword hbag
  constructor
  · intro check
    have hparam : StartsWord isWord checkParam := ⟨'r', rfl, hword 'r' (by decide)⟩
    rw [Expr.render]
    exact ⟨check.codeText_condition bag,
      referencesApart_iff hbag hparam check.ne_empty_of_text_mem_codeTokens⟩
  · intro ref path
    have hresult := ref.startsWord_resultVar hword
    rw [Expr.render, ← isChain_extractionTokens_iff ref.resultVar]
    exact ⟨codeText_extraction bag ref.resultVar path, referencesApart_iff hbag hresult
      (ne_empty_of_text_mem_extractionTokens hresult.ne_empty path)⟩

def isIdentifierChar (c : Char) : Bool :=
  isIdentPart c || c == '$'

def ownerCheck : Check where
  name := none
  path := some "$.json().id === $value && $[$index].owner === $\x7buser\x7d"
  value := .string "$id"

theorem referencesApart_ownerCheck :
    (∀ c, isIdentPart c → isIdentifierChar c) ∧ IsName "variables" ∧
      ReferencesApart isIdentifierChar "variables" checkParam ownerCheck.codeTokens ∧
      ReferencesApart isIdentifierChar "variables" "req_0"
        (extractionTokens "req_0" ".items[$\x7bindex\x7d].id") := by
  have hword (c : Char) (hc : isIdentPart c) : isIdentifierChar c := by
    simp [isIdentifierChar, hc]
  have hbag : IsName "variables" := isIdentifier_iff.mp (by decide)
  obtain ⟨hchecks, hpaths⟩ := referencesApart_fragments_iff hword hbag
  have hhead : ∀ name, (scan (trim ".items[$\x7bindex\x7d].id")).head? ≠ some (.var name) :=
    head?_scan_ne_var (by decide +kernel)
  refine ⟨hword, hbag, (hchecks ownerCheck).2.mpr ?_,
    (hpaths (.precondition 0) _).2.mpr ⟨?_, hhead⟩⟩
  · decide +kernel
  · decide +kernel

def gluedCheck : Check where
  name := none
  path := some "$\x7bkey\x7din $.json()"
  value := .null

theorem not_referencesApart_gluedCheck :
    checkCheck (.item 0 0) 0 gluedCheck = .accepted gluedCheck ∧ IsName "variables" ∧
      gluedCheck.condition.varNames = ["key"] ∧
      (Expr.code gluedCheck.condition).render "variables" = "variables.keyin r.json()" ∧
      ¬ReferencesApart isIdentifierChar "variables" checkParam gluedCheck.codeTokens := by
  have htokens : gluedCheck.codeTokens =
      [] ++ .var "key" :: [.text "in ", .bare, .text ".json()"] := by decide +kernel
  have hbehind : (codeOf "variables" checkParam
      [.text "in ", .bare, .text ".json()"]).toList.head? = some 'i' := by decide +kernel
  have haccepted : checkCheck (.item 0 0) 0 gluedCheck = .accepted gluedCheck := by
    have hpath : gluedCheck.path.any (!isBlankText ·) := by decide +kernel
    rw [checkCheck, Checked.ensure, if_pos hpath]
    rfl
  refine ⟨haccepted, isIdentifier_iff.mp (by decide), by decide +kernel, ?_, fun hapart => ?_⟩
  · rw [Expr.render]
    decide +kernel
  · exact (hapart [] (.var "key") _ htokens rfl).behind 'i' hbehind (by decide)

end Fragments

end FlowScript
