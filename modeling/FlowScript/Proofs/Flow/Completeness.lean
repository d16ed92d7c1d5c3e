import FlowScript.Proofs.Flow.Sites

/-! Every violation of a flow is reported at once. The report holds, for each site at fault, a
violation of its own, whatever the other sites hold. The one exception is an entry of a validation
without a reference, whose rule is not looked at before the reference is given. -/

namespace FlowScript

open Text Checked

namespace FlowDraft

def stepAt? (draft : FlowDraft) : StepRef → Option StepDraft
  | .precondition index => draft.precondition[index]?
  | .postcondition index => draft.postcondition[index]?
  | .item group step => draft.items[group]?.bind fun group => group.steps[step]?

theorem mem_locatedSteps {draft : FlowDraft} {ref : StepRef} {step : StepDraft} :
    (ref, step) ∈ draft.locatedSteps ↔ draft.stepAt? ref = some step := by
  unfold locatedSteps
  cases ref <;>
    simp [stepAt?, List.mem_zipIdx_iff_getElem?, Option.bind_eq_some_iff]

theorem nodup_locatedSteps (draft : FlowDraft) : (draft.locatedSteps.map Prod.fst).Nodup := by
  have hplaces := StepRef.nodup_places draft.precondition draft.postcondition draft.items
    GroupDraft.steps
  simpa [locatedSteps, List.map_flatMap, Function.comp_def] using hplaces

/-- What is wrong at a site of a flow, whatever is wrong at the others. -/
def violation? (draft : FlowDraft) (place : StepRef × StepSite) : Option CompileError :=
  (draft.stepAt? place.1).bind fun step => step.violation? place.1 place.2

def Hides (draft : FlowDraft) (place : StepRef × StepSite) : Prop :=
  ∃ step, draft.stepAt? place.1 = some step ∧ step.Hides place.2

def visited (draft : FlowDraft) : List (StepRef × StepSite) :=
  draft.locatedSteps.flatMap fun (ref, step) => step.visited.map (Prod.mk ref)

/-- The sites whose violations are reported, in the order of the report. -/
def reported (draft : FlowDraft) : List (StepRef × StepSite) :=
  draft.visited.filter fun place => (draft.violation? place).isSome

theorem violations_checkParts_eq_filterMap (draft : FlowDraft) :
    draft.checkParts.violations = draft.visited.filterMap draft.violation? := by
  rw [violations_checkParts, visited, List.filterMap_flatMap]
  refine List.flatMap_congr fun entry hmem => ?_
  have hstep := mem_locatedSteps.mp hmem
  simp only [StepDraft.violations_check, List.filterMap_map]
  refine List.filterMap_congr fun site _ => ?_
  rw [Function.comp_apply, violation?, hstep, Option.bind_some]

theorem nodup_visited (draft : FlowDraft) : draft.visited.Nodup := by
  refine List.nodup_flatMap.mpr ⟨fun entry _ => ?_, ?_⟩
  · exact entry.2.nodup_visited.map fun _ _ heq => (Prod.mk.inj heq).2
  · refine (List.pairwise_map.mp draft.nodup_locatedSteps).imp fun hne => ?_
    exact disjoint_map (fun _ _ heq => hne (Prod.mk.inj heq).1) _ _

theorem mem_visited {draft : FlowDraft} {place : StepRef × StepSite}
    (h : (draft.violation? place).isSome) : place ∈ draft.visited ↔ ¬draft.Hides place := by
  obtain ⟨ref, site⟩ := place
  obtain ⟨step, hstep, hsite⟩ := exists_of_isSome_bind h
  have hvisited : (ref, site) ∈ draft.visited ↔ site ∈ step.visited := by
    simp only [visited, List.mem_flatMap, List.mem_map, Prod.mk.injEq, Prod.exists]
    constructor
    · rintro ⟨_, step', hlocated, _, hmem, rfl, rfl⟩
      rw [mem_locatedSteps, hstep] at hlocated
      rwa [Option.some.inj hlocated]
    · intro hmem
      exact ⟨ref, step, mem_locatedSteps.mpr hstep, site, hmem, rfl, rfl⟩
  rw [hvisited, StepDraft.mem_visited hsite, Hides]
  simp [hstep]

theorem mem_reported {draft : FlowDraft} {place : StepRef × StepSite} :
    place ∈ draft.reported ↔ (draft.violation? place).isSome ∧ ¬draft.Hides place := by
  rw [reported, List.mem_filter, and_comm]
  exact and_congr_right mem_visited

theorem map_filter_isSome {α β : Type} (f : α → Option β) (xs : List α) :
    (xs.filter fun a => (f a).isSome).map f = (xs.filterMap f).map some := by
  induction xs with
  | nil => rfl
  | cons a rest ih => cases h : f a <;> simp [h, ih]

/-- Each violation of a flow is reported, as one of its own, unless it is that of the rule of an
entry without a reference. So a flow in which the reported sites have been put right reports
nothing that was wrong before but such rules. -/
theorem report_complete (draft : FlowDraft) (hkind : trim draft.kind = "load_testing") :
    draft.reported.Nodup ∧
    draft.report.map some = draft.reported.map draft.violation? ∧
    (∀ place, place ∈ draft.reported ↔ (draft.violation? place).isSome ∧ ¬draft.Hides place) ∧
    ∀ later : FlowDraft, (∀ place ∈ draft.reported, later.violation? place = none) →
      ∀ place ∈ later.reported, (draft.violation? place).isSome → draft.Hides place := by
  refine ⟨draft.nodup_visited.filter _, ?_, fun _ => mem_reported, ?_⟩
  · rw [report_of_kind hkind, violations_checkParts_eq_filterMap, reported, map_filter_isSome]
  · intro later hcorrected place hlater hbefore
    by_contra hshown
    have hnone := hcorrected place (mem_reported.mpr ⟨hbefore, hshown⟩)
    have hsome := (mem_reported.mp hlater).1
    rw [hnone] at hsome
    contradiction

def faultyFlow : FlowDraft :=
  StepDraft.alone {
    kind := " "
    sleep := none
    assignments := [⟨"1st", "cookie", ""⟩]
    request := some {
      endpoint := ""
      method := "FETCH"
      auth := some ⟨"bearer", []⟩
      headers := [⟨"a", .null⟩, ⟨"", .null⟩]
      cookies := []
      params := []
      query := [⟨" ", .null⟩]
      body := none
      tags := [⟨"", none⟩]
      timeout := none }
    response := some ⟨"xml", [⟨"", "eq"⟩, ⟨"id", ""⟩], [⟨none, none, .null⟩]⟩ }

theorem report_faultyFlow :
    trim faultyFlow.kind = "load_testing" ∧
    faultyFlow.report.map some = faultyFlow.reported.map faultyFlow.violation? ∧
    faultyFlow.reported.map Prod.snd = [
      .kind, .request .method, .request .endpoint, .request (.auth .data),
      .request (.key .headers 1), .request (.key .query 0), .request (.tag 0), .response .kind,
      .response (.rule 0 .reference), .response (.rule 1 .text), .response (.checkPath 0),
      .assignment 0 .name, .assignment 0 .path, .assignment 0 .source] :=
  ⟨by decide, (report_complete faultyFlow (by decide)).2.1, rfl⟩

def unruledFlow (reference : String) : FlowDraft :=
  StepDraft.alone {
    kind := "api"
    sleep := none
    assignments := []
    request := some ⟨"/a", "GET", none, [], [], [], [], none, [], none⟩
    response := some ⟨"json", [⟨reference, ""⟩], []⟩ }

theorem rule_reported_after_reference :
    let hidden := CompileError.missingField (.precondition 0) "response.validate[0].rule"
    (unruledFlow "").violation? (.precondition 0, .response (.rule 0 .text)) = some hidden ∧
    hidden ∉ (unruledFlow "").report ∧
    hidden ∈ (unruledFlow "id").report := by
  have hbefore : (unruledFlow "").report =
      [.missingField (.precondition 0) "response.validate[0].ref"] := rfl
  have hafter : (unruledFlow "id").report =
      [.missingField (.precondition 0) "response.validate[0].rule"] := rfl
  refine ⟨rfl, ?_, ?_⟩
  · simp [hbefore]
  · simp [hafter]

end FlowDraft

end FlowScript
