import FlowScript.Proofs.Script.Resolution

/-! Events all of whose reads are supplied, from outside or by an assignment before them. -/

namespace FlowScript

/-- Each read asks for a name that is available or that an event before it assigns. -/
def Supplied (available : String → Prop) : List VarEvent → Prop
  | [] => True
  | .used name :: rest => available name ∧ Supplied available rest
  | .assigned slot :: rest => Supplied (fun name => available name ∨ name = slot) rest

theorem supplied_congr {available available' : String → Prop}
    (h : ∀ name, available name ↔ available' name) (events : List VarEvent) :
    Supplied available events ↔ Supplied available' events := by
  rw [show available = available' from funext fun name => propext (h name)]

theorem supplied_append (available : String → Prop) (xs ys : List VarEvent) :
    Supplied available (xs ++ ys) ↔
      Supplied available xs ∧ Supplied (fun name => available name ∨ .assigned name ∈ xs) ys := by
  induction xs generalizing available with
  | nil => simp [Supplied]
  | cons event rest ih =>
    cases event with
    | used name => simp [Supplied, ih, and_assoc]
    | assigned slot => simp [Supplied, ih, or_assoc]

theorem supplied_map_used (available : String → Prop) (names : List String) :
    Supplied available (names.map .used) ↔ ∀ name ∈ names, available name := by
  induction names with
  | nil => simp [Supplied]
  | cons name rest ih => simp [Supplied, ih]

/-- Events that come in parts are supplied if each part is, given the assignments of the parts
before it. -/
theorem supplied_flatMap {α : Type} (available : String → Prop) (f : α → List VarEvent)
    (parts : List α) :
    Supplied available (parts.flatMap f) ↔
      ∀ before part after, parts = before ++ part :: after →
        Supplied (fun name => available name ∨ ∃ earlier ∈ before, .assigned name ∈ f earlier)
          (f part) := by
  induction parts generalizing available with
  | nil => simp [Supplied]
  | cons first rest ih =>
    rw [List.flatMap_cons, supplied_append, ih]
    constructor
    · rintro ⟨hfirst, hrest⟩ before part after hsplit
      cases before with
      | nil =>
        obtain ⟨rfl, rfl⟩ := List.cons.inj hsplit
        exact (supplied_congr (by simp) _).mp hfirst
      | cons other before =>
        obtain ⟨rfl, rfl⟩ := List.cons.inj hsplit
        exact (supplied_congr (by simp [or_assoc]) _).mp (hrest before part after rfl)
    · intro h
      refine ⟨(supplied_congr (by simp) _).mp (h [] first rest rfl), ?_⟩
      rintro before part after rfl
      exact (supplied_congr (by simp [or_assoc]) _).mp (h (first :: before) part after rfl)

theorem unresolvedReads_eq_nil_iff (assigned : List (SectionKind × String)) (kind : SectionKind)
    (events : List VarEvent) :
    unresolvedReads assigned (events.map (kind, ·)) = [] ↔
      Supplied (fun name => isVisible assigned kind name = true) events := by
  induction events generalizing assigned with
  | nil => simp [unresolvedReads, Supplied]
  | cons event rest ih =>
    cases event with
    | used name =>
      rw [List.map_cons, unresolvedReads, Supplied, ← ih]
      by_cases h : isVisible assigned kind name = true <;> simp [h]
    | assigned slot =>
      rw [List.map_cons, unresolvedReads, Supplied, ih]
      refine supplied_congr (fun name => ?_) rest
      rw [isVisible_cons, or_comm]

end FlowScript
