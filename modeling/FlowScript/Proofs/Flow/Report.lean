import FlowScript.Flow.Validate
import FlowScript.Proofs.Flow.Checked

/-! The violations of a flow are those of its steps. What is wrong with a step is reported as if no
other step were there, and its place is the only trace that the flow leaves in the report. -/

namespace FlowScript

open Text Checked

namespace CompileError

def step? : CompileError → Option StepRef
  | .unsupportedMethod ref _ | .unsupportedStepKind ref _ | .unsupportedAuthKind ref _
  | .unsupportedResponseKind ref _ | .unsupportedVariableSource ref _ _
  | .invalidVariableName ref _ | .missingField ref _ | .unresolvedPathToken ref _ => some ref
  | .json _ | .unsupportedFlowKind _ | .unresolvedVariable _ | .invalidDescriptor _ => none

/-- The same violation, about another step. -/
def relocate (ref : StepRef) : CompileError → CompileError
  | .unsupportedMethod _ method => .unsupportedMethod ref method
  | .unsupportedStepKind _ kind => .unsupportedStepKind ref kind
  | .unsupportedAuthKind _ kind => .unsupportedAuthKind ref kind
  | .unsupportedResponseKind _ kind => .unsupportedResponseKind ref kind
  | .unsupportedVariableSource _ name source => .unsupportedVariableSource ref name source
  | .invalidVariableName _ name => .invalidVariableName ref name
  | .missingField _ field => .missingField ref field
  | .unresolvedPathToken _ token => .unresolvedPathToken ref token
  | .json problem => .json problem
  | .unsupportedFlowKind kind => .unsupportedFlowKind kind
  | .unresolvedVariable name => .unresolvedVariable name
  | .invalidDescriptor all => .invalidDescriptor all

theorem violations_of_step? {violation : CompileError} {ref : StepRef}
    (h : violation.step? = some ref) : violation.violations = [violation] := by
  cases violation with
  | invalidDescriptor all => contradiction
  | _ => rfl

end CompileError

open CompileError (relocate)

/-- A report whose violations are all about the step at which it is made, and which is the same at
every step but for that. -/
structure Localized (report : StepRef → List CompileError) : Prop where
  step : ∀ ref, ∀ violation ∈ report ref, violation.step? = some ref
  relocate : ∀ ref other, (report ref).map (relocate other) = report other

section Localized

variable {report others : StepRef → List CompileError}

theorem localized_nil : Localized fun _ => [] :=
  ⟨fun _ _ h => absurd h List.not_mem_nil, fun _ _ => rfl⟩

theorem localized_singleton {violation : StepRef → CompileError}
    (hstep : ∀ ref, (violation ref).step? = some ref)
    (hmove : ∀ ref other, relocate other (violation ref) = violation other) :
    Localized fun ref => [violation ref] := by
  refine ⟨fun ref v hv => ?_, fun ref other => ?_⟩
  · rw [List.mem_singleton.mp hv]
    exact hstep ref
  · rw [List.map_singleton, hmove]

theorem Localized.append (h : Localized report) (h' : Localized others) :
    Localized fun ref => report ref ++ others ref := by
  refine ⟨fun ref v hv => ?_, fun ref other => ?_⟩
  · rcases List.mem_append.mp hv with hv | hv
    · exact h.step ref v hv
    · exact h'.step ref v hv
  · rw [List.map_append, h.relocate, h'.relocate]

theorem Localized.flatMap {α : Type} {part : StepRef → α → List CompileError}
    (h : ∀ a, Localized fun ref => part ref a) (xs : List α) :
    Localized fun ref => xs.flatMap (part ref) := by
  induction xs with
  | nil => exact localized_nil
  | cons a rest ih => exact (h a).append ih

theorem Localized.ite (h : Localized report) (h' : Localized others) (condition : Prop)
    [Decidable condition] : Localized fun ref => if condition then report ref else others ref := by
  by_cases hc : condition
  · simpa only [if_pos hc] using h
  · simpa only [if_neg hc] using h'

theorem localized_missing (field : String) : Localized fun ref => [missing ref field] :=
  localized_singleton (fun _ => rfl) fun _ _ => rfl

end Localized

section Checks

variable {α β : Type}

theorem localized_ensure {violation : StepRef → CompileError}
    (h : Localized fun ref => [violation ref]) (condition : Bool) (a : α) :
    Localized fun ref => (ensure condition (violation ref) a).violations := by
  simp only [violations_ensure]
  exact localized_nil.ite h _

theorem localized_each {check : StepRef → Nat → α → Checked β}
    (h : ∀ index a, Localized fun ref => (check ref index a).violations) (xs : List α) :
    Localized fun ref => (each (check ref) xs).violations := by
  have hentry (entry : α × Nat) : Localized fun ref => (check ref entry.2 entry.1).violations :=
    h entry.2 entry.1
  simp only [violations_each]
  exact Localized.flatMap hentry _

theorem localized_whenSome {check : StepRef → α → Checked β}
    (h : ∀ a, Localized fun ref => (check ref a).violations) (a : Option α) :
    Localized fun ref => (whenSome (check ref) a).violations := by
  simp only [violations_whenSome]
  exact Localized.flatMap h _

theorem localized_checkNamed (field : String) (unsupported : StepRef → String → CompileError)
    (h : ∀ text, Localized fun ref => [unsupported ref text]) (ofText? : String → Option α)
    (text : String) :
    Localized fun ref => (checkNamed ref field (unsupported ref) ofText? text).violations := by
  unfold checkNamed
  by_cases hblank : isBlankText text
  · simp only [if_pos hblank]
    exact localized_missing field
  · simp only [if_neg hblank, violations_require]
    exact localized_nil.ite (h text) _

theorem localized_checkPairs (field : String) (pairs : List Pair) :
    Localized fun ref => (checkPairs ref field pairs).violations :=
  localized_each (fun _ _ => localized_ensure (localized_missing _) _ _) pairs

theorem AuthDraft.localized_check (draft : AuthDraft) :
    Localized fun ref => (draft.check ref).violations := by
  unfold check checkNamed
  by_cases hblank : isBlankText draft.kind
  · simp only [if_pos hblank]
    exact localized_missing "request.auth.kind"
  · simp only [if_neg hblank]
    cases AuthKind.ofText? draft.kind with
    | none => exact localized_singleton (fun _ => rfl) fun _ _ => rfl
    | some kind => exact localized_ensure (localized_missing "request.auth.data[0]") _ _

theorem RequestDraft.localized_check (draft : RequestDraft) :
    Localized fun ref => (draft.check ref).violations := by
  have hmethod := localized_checkNamed "request.method" .unsupportedMethod
    (fun _ => localized_singleton (fun _ => rfl) fun _ _ => rfl) Method.ofText? draft.method
  have hendpoint := localized_ensure (localized_missing "request.endpoint")
    (!isBlankText draft.endpoint) draft.endpoint
  have hauth := localized_whenSome (fun auth => auth.localized_check) draft.auth
  have hpairs := localized_checkPairs
  have htags : Localized fun ref => (each (checkTag ref) draft.tags).violations :=
    localized_each (fun _ _ => localized_ensure (localized_missing _) _ _) _
  unfold check
  simp only [map_eq, seq_eq, violations_seq, violations_map]
  exact ((((((hmethod.append hendpoint).append hauth).append (hpairs _ _)).append
    (hpairs _ _)).append (hpairs _ _)).append (hpairs _ _)).append htags

theorem localized_checkRule (index : Nat) (rule : ValidationRule) :
    Localized fun ref => (checkRule ref index rule).violations := by
  unfold checkRule
  by_cases hblank : isBlankText rule.reference
  · simp only [if_pos hblank]
    exact localized_missing _
  · simp only [if_neg hblank]
    exact localized_ensure (localized_missing _) _ _

theorem ResponseDraft.localized_check (draft : ResponseDraft) :
    Localized fun ref => (draft.check ref).violations := by
  have hkind := localized_checkNamed "response.kind" .unsupportedResponseKind
    (fun _ => localized_singleton (fun _ => rfl) fun _ _ => rfl) ResponseKind.ofText? draft.kind
  have hrules := localized_each localized_checkRule draft.validate
  have hchecks : Localized fun ref => (each (checkCheck ref) draft.checks).violations :=
    localized_each (fun _ _ => localized_ensure (localized_missing _) _ _) _
  unfold check
  simp only [map_eq, seq_eq, violations_seq, violations_map]
  exact (hkind.append hrules).append hchecks

theorem localized_checkName (field name : String) :
    Localized fun ref => (checkName ref field name).violations := by
  unfold checkName
  by_cases hblank : isBlankText name
  · simp only [if_pos hblank]
    exact localized_missing _
  · simp only [if_neg hblank]
    exact localized_ensure (localized_singleton (fun _ => rfl) fun _ _ => rfl) _ _

theorem AssignmentDraft.localized_check (index : Nat) (draft : AssignmentDraft) :
    Localized fun ref => (draft.check ref index).violations := by
  have hname := localized_checkName (elementField "set_variable" index) draft.name
  have hpath := localized_ensure (localized_missing (elementField "set_variable" index ++ ".path"))
    (!isBlankText draft.path) draft.path
  unfold check
  simp only [map_eq, seq_eq, violations_seq, violations_map]
  exact (hname.append hpath).append
    (localized_ensure (localized_singleton (fun _ => rfl) fun _ _ => rfl) _ _)

theorem StepDraft.localized_check (draft : StepDraft) :
    Localized fun ref => (draft.check ref).violations := by
  have hkind : Localized fun ref => (checkStepKind ref draft.kind).violations :=
    localized_checkNamed "kind" .unsupportedStepKind
      (fun _ => localized_singleton (fun _ => rfl) fun _ _ => rfl) _ draft.kind
  have hresponse := localized_whenSome (fun response => response.localized_check) draft.response
  have hassignments := localized_each AssignmentDraft.localized_check draft.assignments
  unfold check
  simp only [map_eq, seq_eq, violations_seq, violations_map]
  cases draft.request with
  | none => exact ((hkind.append (localized_missing _)).append hresponse).append hassignments
  | some request =>
    exact ((hkind.append request.localized_check).append hresponse).append hassignments

end Checks

namespace FlowDraft

def locatedSteps (draft : FlowDraft) : List (StepRef × StepDraft) :=
  draft.precondition.zipIdx.map (fun (step, index) => (.precondition index, step)) ++
  draft.postcondition.zipIdx.map (fun (step, index) => (.postcondition index, step)) ++
  draft.items.zipIdx.flatMap fun (group, index) =>
    group.steps.zipIdx.map fun (step, place) => (.item index place, step)

def report (draft : FlowDraft) : List CompileError :=
  match draft.validate with
  | .ok _ => []
  | .error error => error.violations

theorem violations_checkParts (draft : FlowDraft) :
    draft.checkParts.violations =
      draft.locatedSteps.flatMap fun (ref, step) => (step.check ref).violations := by
  unfold checkParts locatedSteps
  simp only [map_eq, seq_eq, violations_seq, violations_map, violations_each, GroupDraft.check,
    List.flatMap_append, List.flatMap_map, List.flatMap_assoc]

theorem step?_of_mem_violations {draft : FlowDraft} {violation : CompileError}
    (h : violation ∈ draft.checkParts.violations) : ∃ ref, violation.step? = some ref := by
  rw [violations_checkParts] at h
  obtain ⟨⟨ref, step⟩, _, hmem⟩ := List.mem_flatMap.mp h
  exact ⟨ref, step.localized_check.step ref violation hmem⟩

theorem validate_of_kind {draft : FlowDraft} (hkind : trim draft.kind = flowKind) :
    draft.validate = draft.checkParts.toExcept :=
  if_pos (beq_iff_eq.mpr hkind)

theorem report_of_kind {draft : FlowDraft} (hkind : trim draft.kind = flowKind) :
    draft.report = draft.checkParts.violations := by
  have hlocated := fun violation => @step?_of_mem_violations draft violation
  unfold report
  rw [validate_of_kind hkind]
  cases hcheck : draft.checkParts with
  | accepted flow => rfl
  | rejected first others =>
    rw [hcheck] at hlocated
    cases others with
    | nil =>
      -- A single violation is reported by itself, so it must not be a collection.
      obtain ⟨ref, hfirst⟩ := hlocated first (List.mem_singleton_self _)
      exact CompileError.violations_of_step? hfirst
    | cons second rest => rfl

end FlowDraft

namespace StepDraft

def alone (step : StepDraft) : FlowDraft where
  kind := flowKind
  options := .none
  precondition := [step]
  postcondition := []
  items := []

/-- What is reported of the step when there is no other, moved to a place. -/
def reportAt (step : StepDraft) (ref : StepRef) : List CompileError :=
  step.alone.report.map (relocate ref)

theorem reportAt_eq (step : StepDraft) (ref : StepRef) :
    step.reportAt ref = (step.check ref).violations := by
  have hkind : trim step.alone.kind = flowKind := show trim flowKind = flowKind by decide
  have halone : step.alone.report = (step.check (.precondition 0)).violations := by
    rw [FlowDraft.report_of_kind hkind, FlowDraft.violations_checkParts]
    simp [FlowDraft.locatedSteps, alone]
  rw [reportAt, halone, step.localized_check.relocate]

end StepDraft

/-- The report of a flow is what is reported of each of its steps alone, in their order and at their
places, and validation fails with exactly this report. A flow of another kind is reported as such,
and nothing else about it is. -/
theorem FlowDraft.report_compositional (draft : FlowDraft) :
    let all := draft.locatedSteps.flatMap fun (ref, step) => step.reportAt ref
    if trim draft.kind = "load_testing" then
      draft.report = all ∧
      (∀ entry ∈ draft.locatedSteps, ∀ violation ∈ entry.2.reportAt entry.1,
        violation.step? = some entry.1) ∧
      match all with
      | [] => ∃ flow, draft.validate = .ok flow
      | [violation] => draft.validate = .error violation
      | _ => draft.validate = .error (.invalidDescriptor all)
    else draft.validate = .error (.unsupportedFlowKind draft.kind) := by
  have hall : (draft.locatedSteps.flatMap fun (ref, step) => step.reportAt ref) =
      draft.checkParts.violations := by
    simp only [StepDraft.reportAt_eq, violations_checkParts]
  intro all
  by_cases hkind : trim draft.kind = "load_testing"
  · rw [if_pos hkind]
    refine ⟨(report_of_kind hkind).trans hall.symm, fun entry _ => ?_, ?_⟩
    · rw [StepDraft.reportAt_eq]
      exact entry.2.localized_check.step entry.1
    · rw [validate_of_kind hkind, show all = _ from hall]
      cases draft.checkParts with
      | accepted flow => exact ⟨flow, rfl⟩
      | rejected first others => cases others <;> rfl
  · rw [if_neg hkind]
    exact if_neg fun h => hkind (beq_iff_eq.mp h)

end FlowScript
