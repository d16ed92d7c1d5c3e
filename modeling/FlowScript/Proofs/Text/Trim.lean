import FlowScript.Text.Blank
import FlowScript.Text.Identifier
import Mathlib.Data.List.TakeWhile

/-! What trimming cuts off. -/

namespace FlowScript.Text

theorem exists_eq_dropTail_append (p : Char → Bool) (cs : List Char) :
    ∃ tail, cs = dropTail p cs ++ tail ∧ ∀ c ∈ tail, p c := by
  induction cs with
  | nil => exact ⟨[], rfl, by simp⟩
  | cons c cs ih =>
    obtain ⟨tail, hcs, htail⟩ := ih
    rw [dropTail]
    split
    · rename_i hnil
      rw [hnil, List.nil_append] at hcs
      subst hcs
      by_cases hc : p c
      · exact ⟨c :: cs, by simp [hc], by simpa [hc] using htail⟩
      · exact ⟨cs, by simp [hc], htail⟩
    · exact ⟨tail, by rw [List.cons_append, ← hcs], htail⟩

theorem dropTail_eq_nil_iff {p : Char → Bool} {cs : List Char} :
    dropTail p cs = [] ↔ ∀ c ∈ cs, p c := by
  constructor
  · intro hnil
    obtain ⟨tail, hcs, htail⟩ := exists_eq_dropTail_append p cs
    rw [hnil, List.nil_append] at hcs
    rwa [hcs]
  · intro hall
    induction cs with
    | nil => rfl
    | cons c cs ih =>
      obtain ⟨hc, hcs⟩ := List.forall_mem_cons.mp hall
      rw [dropTail, ih hcs, if_pos hc]

theorem trimChars_eq_nil_iff {cs : List Char} : trimChars cs = [] ↔ ∀ c ∈ cs, isBlank c := by
  rw [trimChars, dropTail_eq_nil_iff]
  constructor
  · intro hrest c hc
    rw [← List.takeWhile_append_dropWhile (p := isBlank) (l := cs)] at hc
    rcases List.mem_append.mp hc with hc | hc
    · exact List.mem_takeWhile_imp hc
    · exact hrest c hc
  · intro hall c hc
    exact hall c (List.dropWhile_suffix isBlank |>.subset hc)

theorem exists_eq_blanks_append_trimChars (cs : List Char) :
    ∃ before after, cs = before ++ (trimChars cs ++ after) ∧
      (∀ c ∈ before, isBlank c) ∧ ∀ c ∈ after, isBlank c := by
  obtain ⟨after, hdrop, hafter⟩ := exists_eq_dropTail_append isBlank (cs.dropWhile isBlank)
  refine ⟨cs.takeWhile isBlank, after, ?_, fun c hc => List.mem_takeWhile_imp hc, hafter⟩
  rw [trimChars, ← hdrop, List.takeWhile_append_dropWhile]

theorem dropTail_dropTail (p : Char → Bool) (cs : List Char) :
    dropTail p (dropTail p cs) = dropTail p cs := by
  induction cs with
  | nil => rfl
  | cons c cs ih =>
    rw [dropTail]
    cases hkept : dropTail p cs with
    | nil => by_cases hc : p c <;> simp [dropTail, hc]
    | cons d ds =>
      rw [hkept] at ih
      show dropTail p (c :: d :: ds) = c :: d :: ds
      rw [dropTail, ih]

theorem dropWhile_trimChars (cs : List Char) :
    (trimChars cs).dropWhile isBlank = trimChars cs := by
  have hhead := List.head?_dropWhile_not isBlank cs
  rw [trimChars]
  cases hrest : cs.dropWhile isBlank with
  | nil => rfl
  | cons d ds =>
    rw [hrest] at hhead
    have hd : isBlank d = false := by simpa using hhead
    rw [dropTail]
    split <;> simp [hd]

theorem takeWhile_trimChars (cs : List Char) : (trimChars cs).takeWhile isBlank = [] := by
  have hsplit := List.takeWhile_append_dropWhile (p := isBlank) (l := trimChars cs)
  rw [dropWhile_trimChars] at hsplit
  exact List.append_left_eq_self.mp hsplit

theorem isBlank_of_mem_replicate {count : Nat} {c : Char} (h : c ∈ List.replicate count ' ') :
    isBlank c := by
  rw [List.eq_of_mem_replicate h]
  decide

theorem trimChars_append_trimChars {indent : List Char} (hindent : ∀ c ∈ indent, isBlank c)
    (cs : List Char) : trimChars (indent ++ trimChars cs) = trimChars cs := by
  rw [trimChars, List.dropWhile_append_of_pos hindent, dropWhile_trimChars]
  exact dropTail_dropTail isBlank _

theorem dropTail_append_of_ne_nil {p : Char → Bool} (cs : List Char) {ds : List Char}
    (h : dropTail p ds ≠ []) : dropTail p (cs ++ ds) = cs ++ dropTail p ds := by
  induction cs with
  | nil => rfl
  | cons c cs ih =>
    obtain ⟨d, rest, hrest⟩ := List.exists_cons_of_ne_nil (List.append_ne_nil_of_right_ne_nil cs h)
    rw [List.cons_append, dropTail, ih, hrest, List.cons_append, hrest]

theorem trimChars_append {c d : Char} {cs ds : List Char} (hc : isBlank c = false)
    (hd : isBlank d = false) : trimChars (c :: cs ++ d :: ds) = c :: cs ++ trimChars (d :: ds) := by
  have hkept : dropTail isBlank (d :: ds) ≠ [] := by
    rw [ne_eq, dropTail_eq_nil_iff]
    intro hall
    simpa [hd] using hall d (List.mem_cons_self ..)
  rw [trimChars, trimChars, List.cons_append, List.dropWhile_cons_of_neg (by simp [hc]),
    List.dropWhile_cons_of_neg (by simp [hd]), ← List.cons_append,
    dropTail_append_of_ne_nil (c :: cs) hkept]

theorem trimChars_subset (cs : List Char) : trimChars cs ⊆ cs := by
  obtain ⟨tail, hdrop, _⟩ := exists_eq_dropTail_append isBlank (cs.dropWhile isBlank)
  intro c hc
  have hmem : c ∈ cs.dropWhile isBlank := hdrop ▸ List.mem_append_left tail hc
  exact (List.dropWhile_suffix isBlank).subset hmem

theorem trim_of_isBlankText {s : String} (h : isBlankText s) : trim s = "" := by
  rw [trim, trimChars_eq_nil_iff.mpr (List.all_eq_true.mp h), String.ofList_nil]

theorem toNat_of_isIdentPart {c : Char} (h : isIdentPart c) :
    (48 ≤ c.toNat ∧ c.toNat ≤ 57) ∨ (65 ≤ c.toNat ∧ c.toNat ≤ 90) ∨ c.toNat = 95 ∨
      (97 ≤ c.toNat ∧ c.toNat ≤ 122) := by
  unfold isIdentPart Char.isAlphanum Char.isAlpha Char.isUpper Char.isLower Char.isDigit at h
  simp only [Bool.or_eq_true, Bool.and_eq_true, decide_eq_true_eq, beq_iff_eq, ge_iff_le,
    UInt32.le_iff_toNat_le] at h
  rcases h with h | rfl
  · simp at h
    omega
  · decide

theorem isIdentPart_of_isBlank {c : Char} (h : isBlank c) : isIdentPart c = false := by
  cases hpart : isIdentPart c with
  | false => rfl
  | true =>
    have hident := toNat_of_isIdentPart hpart
    simp [isBlank, blankRanges] at h
    omega

end FlowScript.Text
