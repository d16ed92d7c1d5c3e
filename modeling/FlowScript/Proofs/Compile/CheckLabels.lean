import FlowScript.Flow.Validate
import FlowScript.Proofs.Compile.Tags

/-! The checks of a step as the runtime reads them. All checks go into one object, each under its
label, so of the checks with one label the runtime makes only the last. -/

namespace FlowScript

def givenNames (checks : List Check) : List String :=
  checks.filterMap (·.name)

/-- The paths of the checks without a name, which are their labels. -/
def unnamedPaths (checks : List Check) : List String :=
  (checks.filter (·.name.isNone)).map (·.path.getD "")

def Check.assertion (check : Check) : Expr :=
  .arrow [checkParam] (.code check.condition)

theorem Check.label_of_name {check : Check} {name : String} (h : check.name = some name) :
    check.label = name := by
  simp [label, h]

theorem Check.label_of_name_eq_none {check : Check} (h : check.name = none) :
    check.label = check.path.getD "" := by
  simp [label, h]

theorem map_label_named (checks : List Check) :
    (checks.filter (·.name.isSome)).map Check.label = givenNames checks := by
  induction checks with
  | nil => rfl
  | cons check rest ih =>
    cases hname : check.name with
    | none => simpa [givenNames, hname] using ih
    | some name => simpa [givenNames, hname, Check.label_of_name hname] using ih

theorem map_label_unnamed (checks : List Check) :
    (checks.filter (·.name.isNone)).map Check.label = unnamedPaths checks := by
  refine List.map_congr_left fun check hcheck => Check.label_of_name_eq_none ?_
  simpa using (List.mem_filter.mp hcheck).2

theorem labels_perm (checks : List Check) :
    (givenNames checks ++ unnamedPaths checks).Perm (checks.map Check.label) := by
  have hsplit := (List.filter_append_perm (·.name.isSome) checks).map Check.label
  have hnone : (checks.filter fun check => !check.name.isSome) =
      checks.filter (·.name.isNone) := by
    simp only [Option.not_isSome]
  rwa [List.map_append, hnone, map_label_named, map_label_unnamed] at hsplit

theorem nodup_labels_iff (checks : List Check) :
    (checks.map Check.label).Nodup ↔ (givenNames checks).Nodup ∧
      (givenNames checks).Disjoint (unnamedPaths checks) ∧ (unnamedPaths checks).Nodup := by
  rw [← (labels_perm checks).nodup_iff, List.nodup_append']
  exact and_congr_right fun _ => and_comm

theorem readObject_checks (checks : List Check) (key : String) :
    readObject (checks.map Check.entry) key =
      (checks.reverse.find? (·.label = key)).map Check.assertion := by
  -- From the end, since the last entry with a key decides.
  induction checks using List.reverseRecOn with
  | nil => rfl
  | append_singleton checks check ih =>
    have hentry : check.entry = (check.label, check.assertion) := rfl
    rw [List.map_append, List.map_singleton, hentry, readObject_append_singleton,
      List.reverse_concat]
    by_cases hkey : check.label = key
    · subst hkey
      simp
    · rw [Function.update_of_ne (Ne.symm hkey), ih, List.find?_cons_of_neg (by simpa using hkey)]

/-- Under its label, each check is still there with its own condition. -/
def KeepsChecks (entries : List (String × Expr)) (checks : List Check) : Prop :=
  ∀ check ∈ checks, readObject entries check.label = some check.assertion

theorem Check.assertion_inj {check other : Check} :
    check.assertion = other.assertion ↔ check.condition = other.condition := by
  simp [assertion]

theorem keepsChecks_iff (checks : List Check) :
    KeepsChecks (checks.map Check.entry) checks ↔
      ∀ check ∈ checks, ∀ other ∈ checks,
        check.label = other.label → check.condition = other.condition := by
  constructor
  · intro hkeeps check hcheck other hother hlabel
    have hheld := hkeeps check hcheck
    rw [hlabel, hkeeps other hother] at hheld
    exact (Check.assertion_inj.mp (Option.some.inj hheld)).symm
  · intro hsame check hcheck
    rw [readObject_checks]
    cases hfind : checks.reverse.find? (·.label = check.label) with
    | none =>
      have hnone := List.find?_eq_none.mp hfind check (List.mem_reverse.mpr hcheck)
      simp at hnone
    | some other =>
      have hother := List.mem_reverse.mp (List.mem_of_find?_eq_some hfind)
      have hlabel : other.label = check.label := by simpa using List.find?_some hfind
      rw [Option.map_some, Check.assertion_inj.mpr (hsame other hother check hcheck hlabel)]

namespace Step

theorem checkStmts_eq_nil_iff {step : Step} {ref : StepRef} :
    step.checkStmts ref = [] ↔ step.checks = [] := by
  unfold checkStmts
  cases step.checks <;> simp

/-- The checks of a step are one object, with one entry for each check in their order. The labels
are told apart exactly if the names are, no name is the path of a check without a name, and the
checks without a name have different paths. Under each label the runtime finds the last check that
has it, so every check is made exactly if checks with one label have one condition. -/
theorem checks_kept_iff (step : Step) (ref : StepRef) :
    (step.checkStmts ref = [] ↔ step.checks = []) ∧
    ∃ entries, (step.checks ≠ [] → step.checkStmts ref =
        [.expr (.call "k6.check" [.ident ref.resultVar, .object entries])]) ∧
      entries.map Prod.fst = step.checks.map Check.label ∧
      ((entries.map Prod.fst).Nodup ↔ (givenNames step.checks).Nodup ∧
        (givenNames step.checks).Disjoint (unnamedPaths step.checks) ∧
        (unnamedPaths step.checks).Nodup) ∧
      (∀ label, readObject entries label =
        (step.checks.reverse.find? (·.label = label)).map Check.assertion) ∧
      (KeepsChecks entries step.checks ↔ ∀ check ∈ step.checks, ∀ other ∈ step.checks,
        check.label = other.label → check.condition = other.condition) := by
  have hlabels : (step.checks.map Check.entry).map Prod.fst = step.checks.map Check.label := by
    rw [List.map_map]
    rfl
  refine ⟨checkStmts_eq_nil_iff, step.checks.map Check.entry, fun hne => ?_, hlabels, ?_,
    readObject_checks step.checks, keepsChecks_iff step.checks⟩
  · unfold checkStmts
    cases hchecks : step.checks with
    | nil => exact absurd hchecks hne
    | cons check rest => rfl
  · rw [hlabels]
    exact nodup_labels_iff step.checks

end Step

def statusCheck (code : Nat) : Check where
  name := none
  path := some "$.status !== $value"
  value := .number (.natural code)

def statusDraft : StepDraft where
  kind := "api"
  sleep := none
  assignments := []
  request := some ⟨"/a", "GET", none, [], [], [], [], none, [], none⟩
  response := some ⟨"json", [], [statusCheck 404, statusCheck 500]⟩

/-- The draft is accepted, and the runtime never looks whether the status is 404. -/
theorem not_keepsChecks_statusDraft :
    ∃ step, statusDraft.check (.item 0 0) = .accepted step ∧
      (givenNames step.checks).Nodup ∧
      (givenNames step.checks).Disjoint (unnamedPaths step.checks) ∧ step.checks.Nodup ∧
      ∃ entries, step.checkStmts (.item 0 0) =
          [.expr (.call "k6.check" [.ident "req_0_0", .object entries])] ∧
        ¬(entries.map Prod.fst).Nodup ∧
        readObject entries "$.status !== $value" = some (statusCheck 500).assertion ∧
        ¬KeepsChecks entries step.checks := by
  have hconditions : (statusCheck 404).condition ≠ (statusCheck 500).condition := by
    decide +kernel
  refine ⟨⟨none, [], ⟨"/a", .get, none, [], [], [], [], none, [], none⟩,
    some ⟨.json, [], [statusCheck 404, statusCheck 500]⟩⟩, rfl, ?_, ?_, ?_,
    [statusCheck 404, statusCheck 500].map Check.entry, rfl, ?_, ?_, fun hkeeps => ?_⟩
  · exact List.nodup_nil
  · exact List.disjoint_nil_left _
  · simp [Step.checks, statusCheck]
  · simp [Check.entry, Check.label, statusCheck]
  · rw [readObject_checks]
    rfl
  · exact hconditions ((keepsChecks_iff _).mp hkeeps _ List.mem_cons_self _
      (List.mem_cons_of_mem _ List.mem_cons_self) rfl)

end FlowScript
