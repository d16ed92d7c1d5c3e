import FlowScript.Text.Identifier
import Mathlib.Data.List.TakeWhile
import Mathlib.Data.String.Basic

/-! Names: what identifiers are, said by their characters alone, and how a text starts with one. The
longest name in front of a text is determined by where it ends. -/

namespace FlowScript.Text

/-- An ASCII letter or an underscore. -/
def IsLetter (c : Char) : Prop :=
  ('A' ≤ c ∧ c ≤ 'Z') ∨ ('a' ≤ c ∧ c ≤ 'z') ∨ c = '_'

/-- A letter, followed by letters and ASCII digits. -/
def IsName (s : String) : Prop :=
  ∃ first rest, s.toList = first :: rest ∧ IsLetter first ∧
    ∀ c ∈ rest, IsLetter c ∨ ('0' ≤ c ∧ c ≤ '9')

theorem isIdentStart_iff {c : Char} : isIdentStart c ↔ IsLetter c := by
  unfold isIdentStart IsLetter Char.isAlpha Char.isUpper Char.isLower
  simp [Char.le_def, or_assoc]

theorem isIdentPart_iff {c : Char} : isIdentPart c ↔ IsLetter c ∨ ('0' ≤ c ∧ c ≤ '9') := by
  rw [← isIdentStart_iff]
  unfold isIdentPart isIdentStart Char.isAlphanum Char.isDigit
  simp [Char.le_def, or_right_comm]

theorem isIdentifier_iff {s : String} : isIdentifier s ↔ IsName s := by
  unfold isIdentifier IsName
  cases s.toList with
  | nil => simp [isIdentChars]
  | cons c cs => simp [isIdentChars, isIdentStart_iff, isIdentPart_iff]

def IsNamePart (c : Char) : Prop :=
  IsLetter c ∨ ('0' ≤ c ∧ c ≤ '9')

theorem isName_ofList_iff {cs : List Char} : IsName (String.ofList cs) ↔ isIdentChars cs := by
  rw [← isIdentifier_iff, isIdentifier, String.toList_ofList]

theorem isIdentChars_toList {name : String} (h : IsName name) : isIdentChars name.toList :=
  isIdentifier_iff.mpr h

theorem head?_any_isIdentPart_iff {behind : List Char} :
    behind.head?.any isIdentPart = false ↔ ∀ c ∈ behind.head?, ¬IsNamePart c := by
  cases behind with
  | nil => simp
  | cons c rest => simp [IsNamePart, ← isIdentPart_iff]

section LeadingName

theorem ne_nil_of_isIdentChars {cs : List Char} (h : isIdentChars cs) : cs ≠ [] := by
  rintro rfl
  cases h

theorem leadingIdent_eq_nil_iff {cs : List Char} :
    leadingIdent cs = [] ↔ ∀ c ∈ cs.head?, ¬IsLetter c := by
  cases cs with
  | nil => simp [leadingIdent]
  | cons c cs => simp [leadingIdent, ← isIdentStart_iff]

theorem isIdentChars_leadingIdent {cs : List Char} (h : leadingIdent cs ≠ []) :
    isIdentChars (leadingIdent cs) := by
  cases cs with
  | nil => exact absurd rfl h
  | cons c cs =>
    by_cases hc : isIdentStart c
    · simp [leadingIdent, isIdentChars, hc]
    · simp [leadingIdent, hc] at h

theorem head?_afterIdent {cs : List Char} (h : leadingIdent cs ≠ []) :
    (afterIdent cs).head?.any isIdentPart = false := by
  cases cs with
  | nil => exact absurd rfl h
  | cons c cs =>
    by_cases hc : isIdentStart c
    · simp only [afterIdent, hc, if_true]
      cases hrest : cs.dropWhile isIdentPart with
      | nil => rfl
      | cons d ds =>
        have hd := List.head?_dropWhile_not isIdentPart cs
        simpa [hrest] using hd
    · simp [leadingIdent, hc] at h

theorem leadingIdent_append {name after : List Char} (hname : isIdentChars name)
    (hafter : after.head?.any isIdentPart = false) : leadingIdent (name ++ after) = name := by
  cases name with
  | nil => simp [isIdentChars] at hname
  | cons c name =>
    obtain ⟨hc, hall⟩ : isIdentStart c ∧ ∀ d ∈ name, isIdentPart d := by
      simpa [isIdentChars] using hname
    have htake : (name ++ after).takeWhile isIdentPart = name := by
      rw [List.takeWhile_append_of_pos hall]
      cases after with
      | nil => simp
      | cons d ds =>
        have hd : isIdentPart d = false := by simpa using hafter
        simp [hd]
    simp [leadingIdent, hc, htake]

theorem afterIdent_append {name after : List Char} (hname : isIdentChars name)
    (hafter : after.head?.any isIdentPart = false) : afterIdent (name ++ after) = after := by
  have hsplit := leadingIdent_append_afterIdent (name ++ after)
  rw [leadingIdent_append hname hafter] at hsplit
  exact List.append_cancel_left hsplit

theorem takeWhile_append_of_dropWhile_ne_nil {p : Char → Bool} {cs : List Char}
    (h : cs.dropWhile p ≠ []) (q : List Char) : (cs ++ q).takeWhile p = cs.takeWhile p := by
  induction cs with
  | nil => exact absurd rfl h
  | cons c cs ih =>
    by_cases hc : p c
    · rw [List.dropWhile_cons_of_pos hc] at h
      rw [List.cons_append, List.takeWhile_cons_of_pos hc, List.takeWhile_cons_of_pos hc, ih h]
    · rw [List.cons_append, List.takeWhile_cons_of_neg hc, List.takeWhile_cons_of_neg hc]

theorem leadingIdent_append_of_ends {cs : List Char} (h : afterIdent cs ≠ []) (q : List Char) :
    leadingIdent (cs ++ q) = leadingIdent cs ∧ afterIdent (cs ++ q) = afterIdent cs ++ q := by
  cases cs with
  | nil => exact absurd rfl h
  | cons c cs =>
    by_cases hc : isIdentStart c
    · have hrest : cs.dropWhile isIdentPart ≠ [] := by simpa [afterIdent, hc] using h
      have htake := takeWhile_append_of_dropWhile_ne_nil hrest q
      have hdrop : (cs ++ q).dropWhile isIdentPart = cs.dropWhile isIdentPart ++ q := by
        rw [List.dropWhile_append, if_neg (by simpa using hrest)]
      simp [leadingIdent, afterIdent, hc, htake, hdrop]
    · simp [leadingIdent, afterIdent, hc]

theorem leadingIdent_eq_self {cs : List Char} (h : afterIdent cs = []) : leadingIdent cs = cs := by
  have hsplit := leadingIdent_append_afterIdent cs
  rwa [h, List.append_nil] at hsplit

theorem isIdentChars_of_afterIdent {cs : List Char} (h : afterIdent cs = []) (hne : cs ≠ []) :
    isIdentChars cs := by
  have hself := leadingIdent_eq_self h
  rw [← hself]
  exact isIdentChars_leadingIdent (hself.symm ▸ hne)

theorem afterIdent_eq_nil_of_append {name more : List Char} (h : isIdentChars (name ++ more)) :
    afterIdent name = [] := by
  cases name with
  | nil => rfl
  | cons c cs =>
    obtain ⟨hc, hall⟩ : isIdentStart c ∧ (∀ d ∈ cs, isIdentPart d) ∧ ∀ d ∈ more, isIdentPart d := by
      simpa [isIdentChars] using h
    simp only [afterIdent, hc, if_true]
    exact List.dropWhile_eq_nil_iff.mpr hall.1

theorem notMem_of_isIdentChars {c : Char} (hstart : isIdentStart c = false)
    (hpart : isIdentPart c = false) {name : List Char} (h : isIdentChars name) : c ∉ name := by
  cases name with
  | nil => exact List.not_mem_nil
  | cons d ds =>
    obtain ⟨hd, hds⟩ : isIdentStart d ∧ ∀ e ∈ ds, isIdentPart e := by
      simpa [isIdentChars] using h
    intro hmem
    rcases List.mem_cons.mp hmem with rfl | hmem
    · exact absurd hd (by simp [hstart])
    · exact absurd (hds _ hmem) (by simp [hpart])

end LeadingName

end FlowScript.Text
