import FlowScript.Compile.Result
import FlowScript.Proofs.Flow.StepRef
import FlowScript.Proofs.Template.Seams
import FlowScript.Script.Render

/-! Which constant a piece of code starts with. What a path takes from a result starts with the name
of the result, unless the path goes on with a character of a name right behind the dollar sign that
stands for the result. -/

namespace FlowScript

open Text

/-- A character that a name of the script language may hold. Every character outside ASCII counts as
one. -/
def isWordChar (c : Char) : Bool :=
  isIdentPart c || c == '$' || c == '\\' || 128 ≤ c.toNat

def leadingWord (s : String) : String :=
  String.ofList (s.toList.takeWhile isWordChar)

theorem takeWhile_append_eq_left_iff {p : Char → Bool} {cs : List Char} (h : ∀ c ∈ cs, p c)
    (rest : List Char) : (cs ++ rest).takeWhile p = cs ↔ rest.head?.any p = false := by
  rw [List.takeWhile_append_of_pos h, List.append_right_eq_self]
  cases rest with
  | nil => simp
  | cons c rest => cases hc : p c <;> simp [hc]

theorem leadingWord_append_eq_left_iff {s : String} (h : ∀ c ∈ s.toList, isWordChar c)
    (rest : String) :
    leadingWord (s ++ rest) = s ↔ rest.toList.head?.any isWordChar = false := by
  rw [leadingWord, String.toList_append, ← takeWhile_append_eq_left_iff h, ← String.toList_inj,
    String.toList_ofList]

theorem isWordChar_of_mem_toString {n : Nat} {c : Char} (h : c ∈ (toString n).toList) :
    isWordChar c := by
  have hdigit : c.isDigit := by
    rw [Nat.toString_eq_repr, Nat.toList_repr] at h
    exact Nat.isDigit_of_mem_toDigits (by decide) (by decide) h
  simp [isWordChar, isIdentPart, Char.isAlphanum, hdigit]

theorem StepRef.isWordChar_of_mem_resultVar {ref : StepRef} {c : Char}
    (h : c ∈ ref.resultVar.toList) : isWordChar c := by
  have hpre : ∀ c ∈ "req_".toList, isWordChar c := List.all_eq_true.mp (by decide)
  have hpost : ∀ c ∈ "post_req_".toList, isWordChar c := List.all_eq_true.mp (by decide)
  have hbetween : ∀ c ∈ "_".toList, isWordChar c := List.all_eq_true.mp (by decide)
  cases ref <;> simp only [resultVar, String.toList_append, List.mem_append] at h
  case precondition i => exact h.elim (hpre c) isWordChar_of_mem_toString
  case postcondition i => exact h.elim (hpost c) isWordChar_of_mem_toString
  case item g s =>
    rcases h with ((h | h) | h) | h
    · exact hpre c h
    · exact isWordChar_of_mem_toString h
    · exact hbetween c h
    · exact isWordChar_of_mem_toString h

namespace Template

theorem codeText_cons (bag : String) (segment : Segment) (rest : List Segment) :
    codeText bag ⟨segment :: rest⟩ = codeText bag ⟨[segment]⟩ ++ codeText bag ⟨rest⟩ := by
  simp [codeText]

@[simp] theorem codeText_empty (bag : String) : empty.codeText bag = "" := rfl

@[simp] theorem codeText_pushVar (bag : String) (t : Template) (name : String) :
    (t.pushVar name).codeText bag = t.codeText bag ++ lookup bag name := by
  simp [codeText, pushVar]

@[simp] theorem codeText_pushText (bag : String) (t : Template) (s : String) :
    (t.pushText s).codeText bag = t.codeText bag ++ s := by
  obtain ⟨segments⟩ := t
  unfold pushText
  fun_induction appendText s segments with
  | case1 hs => simp [codeText, hs]
  | case2 => simp [codeText]
  | case3 t => simp [codeText]
  | case4 segment rest hmerge ih =>
    rw [codeText_cons, ih, codeText_cons bag segment rest, String.append_assoc]

@[simp] theorem codeText_literal (bag s : String) : (literal s).codeText bag = s := by
  rw [literal, codeText_pushText, codeText_empty, String.empty_append]

@[simp] theorem codeText_append (bag : String) (t u : Template) :
    (t ++ u).codeText bag = t.codeText bag ++ u.codeText bag := by
  obtain ⟨segments⟩ := u
  change (segments.foldl pushSegment t).codeText bag = _
  induction segments generalizing t with
  | nil => exact String.append_empty.symm
  | cons segment rest ih =>
    rw [List.foldl_cons, ih, codeText_cons bag segment rest, ← String.append_assoc]
    cases segment with
    | text s => rw [pushSegment, codeText_pushText]; simp [codeText]
    | var name => rw [pushSegment, codeText_pushVar]; simp [codeText]

def Token.code (bag result : String) : Token → String
  | .text s => s
  | .var name => lookup bag name
  | .bare => result

theorem codeText_ofTokens (bag result : String) (tokens : List Token) (start : Template) :
    (ofTokens result tokens start).codeText bag =
      start.codeText bag ++ String.join (tokens.map (Token.code bag result)) := by
  rw [ofTokens_eq_append, codeText_append]
  congr 1
  rw [codeText, List.map_map]
  congr 2
  funext token
  cases token <;> rfl

theorem afterDollar_eq_bare {cs : List Char} : (Token.afterDollar cs).1 = .bare →
    (Token.afterDollar cs).2 = cs ∧ cs.head? ≠ some '$' ∧ cs.head?.any isIdentStart = false := by
  fun_cases Token.afterDollar cs with
  | case1 => simp
  | case2 => simp
  | case3 cs hopen => exact fun _ => ⟨rfl, by simp, by simp; decide⟩
  | case4 cs hdollar hbrace hname =>
    refine fun _ => ⟨rfl, fun hhead => ?_, ?_⟩
    · obtain ⟨rest, rfl⟩ := List.head?_eq_some_iff.mp hhead
      exact hdollar rest rfl
    · cases cs with
      | nil => rfl
      | cons c rest => simpa [leadingIdent] using hname
  | case5 => simp

theorem head?_code_scanChars (bag result : String) {c : Char} (h : c ≠ '$') (cs : List Char) :
    (String.join ((Token.scanChars (c :: cs)).map (Token.code bag result))).toList.head? =
      some c := by
  rw [Token.scanChars, if_neg h]
  simp [Token.code]

end Template

section Extraction

variable (bag result : String)

/-- A path that goes on with a character of a name, right behind the dollar sign that stands for the
result. -/
def IsGlued (path : String) : Prop :=
  ∃ c rest, (trim path).toList = '$' :: c :: rest ∧ isWordChar c ∧ c ≠ '$' ∧ isIdentStart c = false

theorem scan_of_dollar {path : String} {cs : List Char} (h : path.toList = '$' :: cs) :
    Template.scan path =
      (Template.Token.afterDollar cs).1 ::
        Template.Token.scanChars (Template.Token.afterDollar cs).2 := by
  rw [Template.scan, h, Template.Token.scanChars, if_pos rfl]

theorem exists_dollar_of_head?_scan {path : String}
    (h : (Template.scan path).head? = some .bare) :
    ∃ cs, path.toList = '$' :: cs ∧ (Template.Token.afterDollar cs).1 = .bare := by
  match hpath : path.toList with
  | [] =>
    rw [Template.scan, hpath, Template.Token.scanChars] at h
    contradiction
  | c :: cs =>
    by_cases hdollar : c = '$'
    · subst hdollar
      rw [scan_of_dollar hpath] at h
      exact ⟨cs, rfl, Option.some.inj h⟩
    · rw [Template.scan, hpath, Template.Token.scanChars, if_neg hdollar] at h
      simp at h

theorem IsGlued.head?_scan {path : String} (h : IsGlued path) :
    (Template.scan (trim path)).head? = some .bare := by
  obtain ⟨c, rest, hpath, hword, hdollar, hstart⟩ := h
  have hbrace : c ≠ '\x7b' := by
    rintro rfl
    exact absurd hword (by decide)
  rw [scan_of_dollar hpath, Template.afterDollar_bare hdollar hbrace hstart]
  rfl

theorem head?_codeText_of_bare {path : String} {cs : List Char}
    (hpath : (trim path).toList = '$' :: cs) (hbare : (Template.Token.afterDollar cs).1 = .bare) :
    ∃ behind, (extraction result path).codeText bag = result ++ behind ∧
      behind.toList.head? = cs.head? := by
  obtain ⟨hrest, hdollar, _⟩ := Template.afterDollar_eq_bare hbare
  have hscan : Template.scan (trim path) = .bare :: Template.Token.scanChars cs := by
    rw [scan_of_dollar hpath, hbare, hrest]
  refine ⟨String.join ((Template.Token.scanChars cs).map (Template.Token.code bag result)), ?_, ?_⟩
  · unfold extraction
    rw [Template.codeText_ofTokens]
    simp [hscan, Template.Token.code]
  · cases cs with
    | nil => simp [Template.Token.scanChars]
    | cons c rest =>
      exact Template.head?_code_scanChars bag result (fun h => hdollar (congrArg some h)) rest

theorem head?_codeText_of_not_bare {path : String}
    (h : (Template.scan (trim path)).head? ≠ some .bare) :
    ∃ behind, (extraction result path).codeText bag = result ++ behind ∧
      ∀ c ∈ behind.toList.head?, c = '.' ∨ c = '[' := by
  refine ⟨(if startsWithAccess (trim path).toList then "" else ".") ++ String.join
    ((Template.scan (trim path)).map (Template.Token.code bag result)), ?_, ?_⟩
  · unfold extraction
    simp only [if_neg h, Template.codeText_ofTokens]
    split <;> simp [String.append_assoc]
  · by_cases haccess : startsWithAccess (trim path).toList
    · rw [if_pos haccess, String.empty_append, Template.scan]
      match hpath : (trim path).toList with
      | [] => simp [Template.Token.scanChars]
      | c :: cs =>
        have hc : c = '.' ∨ c = '[' := by simpa [hpath, startsWithAccess] using haccess
        have hdollar : c ≠ '$' := by rcases hc with rfl | rfl <;> decide
        rw [Template.head?_code_scanChars bag result hdollar]
        simpa using hc
    · simp [if_neg haccess]

/-- What a path takes from a result starts with the name of the result exactly if the path is not
glued to it. -/
theorem leadingWord_extraction (h : ∀ c ∈ result.toList, isWordChar c) (path : String) :
    leadingWord ((extraction result path).codeText bag) = result ↔ ¬IsGlued path := by
  by_cases hbare : (Template.scan (trim path)).head? = some .bare
  · obtain ⟨cs, hpath, hcs⟩ := exists_dollar_of_head?_scan hbare
    obtain ⟨behind, hcode, hhead⟩ := head?_codeText_of_bare bag result hpath hcs
    obtain ⟨_, hdollar, hstart⟩ := Template.afterDollar_eq_bare hcs
    rw [hcode, leadingWord_append_eq_left_iff h, hhead, IsGlued, hpath]
    cases cs with
    | nil => simp
    | cons c rest =>
      have hdollar : c ≠ '$' := fun heq => hdollar (congrArg some heq)
      have hstart : isIdentStart c = false := hstart
      simp [hdollar, hstart]
  · obtain ⟨behind, hcode, hhead⟩ := head?_codeText_of_not_bare bag result hbare
    have hglued : ¬IsGlued path := fun hglued => hbare hglued.head?_scan
    have hapart : behind.toList.head?.any isWordChar = false := by
      cases hfirst : behind.toList.head? with
      | none => rfl
      | some c => rcases hhead c hfirst with rfl | rfl <;> decide
    rw [hcode, leadingWord_append_eq_left_iff h]
    exact iff_of_true hapart hglued

end Extraction

end FlowScript
