import FlowScript.Compile.Resolve

/-! Resolution of reads, section by section and part by part: what a sequence of events leaves
unresolved depends on the assignments before it only through the names that are visible. -/

namespace FlowScript

/-- The assignments met so far, the latest first. -/
def assignedAfter : List (SectionKind × String) → List (SectionKind × VarEvent) →
    List (SectionKind × String)
  | assigned, [] => assigned
  | assigned, (kind, .assigned name) :: rest => assignedAfter ((kind, name) :: assigned) rest
  | assigned, (_, .used _) :: rest => assignedAfter assigned rest

theorem unresolvedReads_append (assigned : List (SectionKind × String))
    (xs ys : List (SectionKind × VarEvent)) :
    unresolvedReads assigned (xs ++ ys) =
      unresolvedReads assigned xs ++ unresolvedReads (assignedAfter assigned xs) ys := by
  induction xs generalizing assigned with
  | nil => rfl
  | cons event rest ih =>
    obtain ⟨kind, name | name⟩ := event
    · rw [List.cons_append, unresolvedReads, unresolvedReads, assignedAfter, ih]
      split <;> rfl
    · rw [List.cons_append, unresolvedReads, unresolvedReads, assignedAfter, ih]

theorem mem_assignedAfter {assigned : List (SectionKind × String)}
    {events : List (SectionKind × VarEvent)} {kind : SectionKind} {name : String} :
    (kind, name) ∈ assignedAfter assigned events ↔
      (kind, name) ∈ assigned ∨ (kind, .assigned name) ∈ events := by
  induction events generalizing assigned with
  | nil => simp [assignedAfter]
  | cons event rest ih =>
    obtain ⟨other, slot | slot⟩ := event
    · simp [assignedAfter, ih]
    · simp only [assignedAfter, ih, List.mem_cons, Prod.mk.injEq, VarEvent.assigned.injEq]
      rw [or_assoc, or_left_comm]

theorem isVisible_iff {assigned : List (SectionKind × String)} {kind : SectionKind}
    {name : String} :
    isVisible assigned kind name = true ↔
      (kind, name) ∈ assigned ∨ ∃ scope ∈ kind.inheritsFrom, (scope, name) ∈ assigned := by
  simp [isVisible]

theorem isVisible_cons {assigned : List (SectionKind × String)} {kind : SectionKind}
    {slot name : String} :
    isVisible ((kind, slot) :: assigned) kind name = true ↔
      name = slot ∨ isVisible assigned kind name = true := by
  simp only [isVisible_iff, List.mem_cons, Prod.mk.injEq, true_and]
  constructor
  · rintro ((rfl | h) | ⟨scope, hscope, ⟨-, rfl⟩ | h⟩)
    · exact .inl rfl
    · exact .inr (.inl h)
    · exact .inl rfl
    · exact .inr (.inr ⟨scope, hscope, h⟩)
  · rintro (rfl | h | ⟨scope, hscope, h⟩)
    · exact .inl (.inl rfl)
    · exact .inl (.inr h)
    · exact .inr ⟨scope, hscope, .inr h⟩

namespace Script

def bodyOf (script : Script) (kind : SectionKind) : List Stmt :=
  (script.sections.filter (·.kind = kind)).flatMap (·.body)

theorem filter_kind_of_nodup {sections : List Section} (h : (sections.map (·.kind)).Nodup)
    (kind : SectionKind) :
    sections.filter (·.kind = kind) = (sections.find? (·.kind = kind)).toList := by
  induction sections with
  | nil => rfl
  | cons sect rest ih =>
    obtain ⟨hsect, hrest⟩ := List.nodup_cons.mp h
    by_cases hkind : sect.kind = kind
    · have hnone : rest.filter (·.kind = kind) = [] := by
        rw [List.filter_eq_nil_iff]
        intro other hother
        have hne : other.kind ≠ sect.kind := fun heq =>
          hsect (List.mem_map.mpr ⟨other, hother, heq⟩)
        simpa [hkind] using hne
      simp [hkind, hnone]
    · simp [hkind, ih hrest]

theorem varEvents_eq {script : Script} (h : (script.sections.map (·.kind)).Nodup) :
    script.varEvents = SectionKind.runtimeOrder.flatMap fun kind =>
      (stmtsVarEvents (script.bodyOf kind)).map (kind, ·) := by
  unfold varEvents
  congr 1
  funext kind
  unfold bodyOf find?
  rw [filter_kind_of_nodup h]
  cases hfind : script.sections.find? (·.kind = kind) with
  | none => rfl
  | some sect =>
    have hkind : sect.kind = kind := by simpa using List.find?_some hfind
    simp [Section.varEvents, hkind]

end Script

end FlowScript
