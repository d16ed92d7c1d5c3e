import FlowScript.Proofs.Compile.Reads
import FlowScript.Proofs.Compile.Registry
import FlowScript.Proofs.Compile.Strictness
import FlowScript.Proofs.Script.Stores

/-! The registry and the script tell of the same producers. The registry is filled while the steps
are compiled, and the assignments are found in the finished script; both follow the bindings of the
flow. -/

namespace FlowScript

open Compile Effect

def StepRef.phase : StepRef → SectionKind
  | .precondition _ => .setup
  | .item _ _ => .main
  | .postcondition _ => .teardown

def Step.bindings (step : Step) (ref : StepRef) : List Binding :=
  step.assignments.map fun assignment => ⟨assignment.name, ref, assignment.path⟩

def stepsBindings (place : Nat → StepRef) (index : Nat) (steps : List Step) : List Binding :=
  (steps.zipIdx index).flatMap fun (step, i) => step.bindings (place i)

def groupsBindings (index : Nat) (groups : List Group) : List Binding :=
  (groups.zipIdx index).flatMap fun (group, g) => stepsBindings (.item g) 0 group.steps

def Flow.bindings (flow : Flow) : List Binding :=
  stepsBindings .precondition 0 flow.precondition ++ groupsBindings 0 flow.items ++
    stepsBindings .postcondition 0 flow.postcondition

/-- The assignment that a binding calls for: the slot of its name gets what its path takes from the
result of its own producer. -/
def Binding.store (binding : Binding) : SectionKind × String × Expr :=
  (binding.producer.phase, binding.name,
    .code (extraction binding.producer.resultVar binding.path))

section Effects

theorem bindings_append (xs ys : List Effect) :
    bindings (xs ++ ys) = bindings xs ++ bindings ys :=
  List.filterMap_append

theorem Step.bindings_effects (step : Step) (ref : StepRef) :
    Effect.bindings (step.effects ref) = step.bindings ref := by
  unfold effects bindings Effect.bindings
  simp [List.filterMap_map]

theorem bindings_stepsEffects (place : Nat → StepRef) (index : Nat) (steps : List Step) :
    bindings (stepsEffects place index steps) = stepsBindings place index steps := by
  induction steps generalizing index with
  | nil => rfl
  | cons step rest ih =>
    rw [stepsEffects, bindings_append, step.bindings_effects, ih, stepsBindings, stepsBindings,
      List.zipIdx_cons, List.flatMap_cons]

theorem bindings_groupsEffects (index : Nat) (groups : List Group) :
    bindings (groupsEffects index groups) = groupsBindings index groups := by
  induction groups generalizing index with
  | nil => rfl
  | cons group rest ih =>
    rw [groupsEffects, bindings_append, bindings_stepsEffects, ih, groupsBindings, groupsBindings,
      List.zipIdx_cons, List.flatMap_cons]

theorem Flow.bindings_effects (flow : Flow) : Effect.bindings flow.effects = flow.bindings := by
  rw [effects, bindings_append, bindings_append, bindings_stepsEffects, bindings_groupsEffects,
    bindings_stepsEffects, bindings]

theorem registry_of_play_ok {strictness : Strictness} {effects : List Effect}
    {before after : Trail} (h : play strictness effects before = (.ok (), after)) :
    after.registry = (bindings effects).foldl Registry.register before.registry := by
  induction effects generalizing before with
  | nil =>
    obtain rfl : before = after := congrArg Prod.snd h
    rfl
  | cons effect rest ih =>
    cases effect with
    | bind binding => exact ih h
    | gap ref token =>
      cases strictness with
      | strict => exact absurd (congrArg Prod.fst h) (by simp [play])
      | permissive =>
        rw [play] at h
        have hrest := ih h
        exact hrest

end Effects

section Stores

theorem Step.stmtsStores_stmts (step : Step) (ref : StepRef) :
    stmtsStores (step.stmts ref) = (step.bindings ref).map fun binding => binding.store.2 := by
  have hrequest : stmtsStores [step.request.stmt ref] = [] :=
    stmtsStores_of_reads ((List.append_nil _).trans (step.request.varEvents_stmt ref))
  have hchecks : stmtsStores (step.checkStmts ref) = [] :=
    stmtsStores_of_reads (step.stmtsVarEvents_checkStmts ref)
  have hassignments : stmtsStores (step.assignments.map (·.stmt ref)) =
      (step.bindings ref).map fun binding => binding.store.2 := by
    unfold bindings
    induction step.assignments with
    | nil => rfl
    | cons assignment rest ih =>
      rw [List.map_cons, stmtsStores, ih]
      rfl
  have hsleep : stmtsStores step.sleepStmts = [] := by
    unfold sleepStmts
    cases step.sleep <;> rfl
  rw [stmts, List.cons_append, List.cons_append, ← List.singleton_append, stmtsStores_append,
    stmtsStores_append, stmtsStores_append, hrequest, hchecks, hassignments, hsleep]
  simp

theorem stmtsStores_stepsStmts (place : Nat → StepRef) (index : Nat) (steps : List Step) :
    stmtsStores (stepsStmts place index steps) =
      (stepsBindings place index steps).map fun binding => binding.store.2 := by
  induction steps generalizing index with
  | nil => rfl
  | cons step rest ih =>
    rw [stepsStmts, stmtsStores_append, step.stmtsStores_stmts, ih, stepsBindings, stepsBindings,
      List.zipIdx_cons, List.flatMap_cons, List.map_append]

theorem stmtsStores_groupsStmts (index : Nat) (groups : List Group) :
    stmtsStores (groupsStmts index groups) =
      (groupsBindings index groups).map fun binding => binding.store.2 := by
  induction groups generalizing index with
  | nil => rfl
  | cons group rest ih =>
    have hgroup : (group.stmt index).stores =
        stmtsStores (stepsStmts (.item index) 0 group.steps) :=
      List.append_nil _
    rw [groupsStmts, stmtsStores, hgroup, stmtsStores_stepsStmts, ih, groupsBindings,
      groupsBindings, List.zipIdx_cons, List.flatMap_cons, List.map_append]

namespace Flow

theorem stmtsStores_setupBody (flow : Flow) (settings : Settings) :
    stmtsStores (flow.setupBody settings) =
      (stepsBindings .precondition 0 flow.precondition).map fun binding => binding.store.2 := by
  rw [setupBody, stmtsStores_append, stmtsStores_append, stmtsStores_stepsStmts]
  exact List.append_nil _

theorem stmtsStores_teardownBody (flow : Flow) :
    stmtsStores flow.teardownBody =
      (stepsBindings .postcondition 0 flow.postcondition).map fun binding => binding.store.2 := by
  rw [teardownBody, stmtsStores_append, stmtsStores_stepsStmts]
  exact List.append_nil _

end Flow

theorem producer_of_mem_stepsBindings {place : Nat → StepRef} {index : Nat} {steps : List Step}
    {binding : Binding} (h : binding ∈ stepsBindings place index steps) :
    ∃ i, binding.producer = place i := by
  obtain ⟨⟨step, i⟩, -, hstep⟩ := List.mem_flatMap.mp h
  obtain ⟨assignment, -, rfl⟩ := List.mem_map.mp hstep
  exact ⟨i, rfl⟩

theorem producer_of_mem_groupsBindings {index : Nat} {groups : List Group} {binding : Binding}
    (h : binding ∈ groupsBindings index groups) : ∃ g s, binding.producer = .item g s := by
  obtain ⟨⟨group, g⟩, -, hgroup⟩ := List.mem_flatMap.mp h
  exact ⟨g, producer_of_mem_stepsBindings hgroup⟩

theorem map_store {bindings : List Binding} {kind : SectionKind}
    (h : ∀ binding ∈ bindings, binding.producer.phase = kind) :
    (bindings.map fun binding => binding.store.2).map (kind, ·) = bindings.map Binding.store := by
  rw [List.map_map]
  refine List.map_congr_left fun binding hmem => ?_
  exact congrArg (·, binding.store.2) (h binding hmem).symm

theorem Flow.stores_scriptFor (flow : Flow) (settings : Settings) :
    (flow.scriptFor settings).stores = flow.bindings.map Binding.store := by
  have hscript : (flow.scriptFor settings).stores =
      (stmtsStores (flow.setupBody settings)).map (.setup, ·) ++
        (stmtsStores flow.mainBody).map (.main, ·) ++
        (stmtsStores flow.teardownBody).map (.teardown, ·) := by
    simp [Script.stores, SectionKind.runtimeOrder, Script.find?, scriptFor, importsSection,
      optionsSection, summarySection, stmtsStores, Stmt.stores, Expr.stores, exprsStores,
      entriesStores, Expr.text]
  rw [hscript, flow.stmtsStores_setupBody, mainBody, stmtsStores_groupsStmts,
    flow.stmtsStores_teardownBody, bindings, List.map_append, List.map_append, map_store,
    map_store, map_store]
  · intro binding hbinding
    obtain ⟨i, hproducer⟩ := producer_of_mem_stepsBindings hbinding
    rw [hproducer, StepRef.phase]
  · intro binding hbinding
    obtain ⟨g, s, hproducer⟩ := producer_of_mem_groupsBindings hbinding
    rw [hproducer, StepRef.phase]
  · intro binding hbinding
    obtain ⟨i, hproducer⟩ := producer_of_mem_stepsBindings hbinding
    rw [hproducer, StepRef.phase]

end Stores

theorem Flow.script_eq_and_registry_eq {flow : Flow} {settings : Settings} {script : Script}
    {session : Session} (h : flow.script.runFrom settings .start = (.ok script, session)) :
    script = flow.scriptFor settings ∧
      session.registry = flow.bindings.foldl Registry.register .empty := by
  obtain ⟨hresult, htrail⟩ := flow.performs_script settings settings.strictness .start
  rw [h] at hresult htrail
  cases hplay : play settings.strictness flow.effects (trail .start) with
  | mk played after =>
    rw [hplay] at hresult htrail
    cases played with
    | error error => exact absurd hresult (by simp [Except.map])
    | ok _ =>
      have hregistry := registry_of_play_ok hplay
      rw [flow.bindings_effects] at hregistry
      exact ⟨Except.ok.inj hresult, (congrArg Trail.registry htrail).trans hregistry⟩

/-- The registry of a script that compiles holds the bindings of all steps in the order of
execution, and the assignments of the script are those of the registry: each in the section of its
producer, with the value that its path takes from the result of that producer. A name is found with
its first producer, and it is found exactly if the script assigns it. -/
theorem Flow.registry_agrees_with_script {flow : Flow} {settings : Settings} {script : Script}
    {session : Session} (h : flow.script.runFrom settings .start = (.ok script, session)) :
    session.registry.entries.toList = flow.bindings ∧
    script.stores = session.registry.entries.toList.map Binding.store ∧
    assignments script.varEvents =
      session.registry.entries.toList.map (fun binding => (binding.producer.phase, binding.name)) ∧
    ∀ name, session.registry.get? name = flow.bindings.find? (·.name = name) ∧
      (session.registry.contains name ↔ ∃ kind, (kind, .assigned name) ∈ script.varEvents) := by
  obtain ⟨rfl, hregistry⟩ := flow.script_eq_and_registry_eq h
  have hindexed : session.registry.IsIndexed :=
    hregistry ▸ Registry.isIndexed_foldl_register Registry.isIndexed_empty flow.bindings
  have hentries : session.registry.entries.toList = flow.bindings := by
    rw [hregistry, Registry.toList_entries_foldl_register]
    rfl
  have hassignments : assignments (flow.scriptFor settings).varEvents =
      flow.bindings.map fun binding => (binding.producer.phase, binding.name) := by
    rw [Script.assignments_varEvents, flow.stores_scriptFor, List.map_map]
    rfl
  refine ⟨hentries, ?_, ?_, fun name => ⟨?_, ?_⟩⟩
  · rw [hentries, flow.stores_scriptFor]
  · rw [hentries, hassignments]
  · rw [hindexed.get?_eq, hentries]
  · rw [hindexed.contains_iff, hentries]
    have hmem : ∀ kind, (kind, .assigned name) ∈ (flow.scriptFor settings).varEvents ↔
        (kind, name) ∈ flow.bindings.map fun binding => (binding.producer.phase, binding.name) := by
      intro kind
      rw [← hassignments, mem_assignments]
    simp only [hmem, List.mem_map, Prod.mk.injEq]
    constructor
    · rintro ⟨binding, hbinding, rfl⟩
      exact ⟨_, binding, hbinding, rfl, rfl⟩
    · rintro ⟨_, binding, hbinding, -, hname⟩
      exact ⟨binding, hbinding, hname⟩

def bindingStep (endpoint : String) (assignments : List Assignment) : Step where
  sleep := none
  assignments
  request := {
    endpoint, method := .get, auth := none, headers := [], cookies := [], params := [], query := [],
    body := none, tags := [], timeout := none }
  response := none

def renewalFlow : Flow where
  options := .none
  precondition := [bindingStep "/login" [⟨"token", "token"⟩]]
  items := [
    ⟨none, [bindingStep "/users?key=$token" [⟨"id", "$[0]"⟩],
      bindingStep "/users/${id}" [⟨"token", ".body"⟩]]⟩]
  postcondition := [bindingStep "/logout" [⟨"left", "$.id"⟩]]

theorem registry_agrees_renewalFlow :
    ∃ script session,
      renewalFlow.script.runFrom { strictness := .strict } .start = (.ok script, session) ∧
      session.registry.entries.toList = [⟨"token", .precondition 0, "token"⟩,
        ⟨"id", .item 0 0, "$[0]"⟩, ⟨"token", .item 0 1, ".body"⟩,
        ⟨"left", .postcondition 0, "$.id"⟩] ∧
      assignments script.varEvents =
        [(.setup, "token"), (.main, "id"), (.main, "token"), (.teardown, "left")] ∧
      session.registry.get? "token" = some ⟨"token", .precondition 0, "token"⟩ := by
  have hok : (renewalFlow.script.runFrom { strictness := .strict } .start).1.isOk := by
    decide +kernel
  have hbindings : renewalFlow.bindings = [⟨"token", .precondition 0, "token"⟩,
      ⟨"id", .item 0 0, "$[0]"⟩, ⟨"token", .item 0 1, ".body"⟩,
      ⟨"left", .postcondition 0, "$.id"⟩] := rfl
  obtain ⟨script, session, hrun⟩ : ∃ script session,
      renewalFlow.script.runFrom { strictness := .strict } .start = (.ok script, session) := by
    cases hresult : renewalFlow.script.runFrom { strictness := .strict } .start with
    | mk result session =>
      cases result with
      | error error => rw [hresult] at hok; cases hok
      | ok script => exact ⟨script, session, rfl⟩
  obtain ⟨hentries, -, hassignments, hget⟩ := renewalFlow.registry_agrees_with_script hrun
  refine ⟨script, session, hrun, hentries.trans hbindings, ?_, ?_⟩
  · rw [hassignments, hentries, hbindings]
    rfl
  · rw [(hget "token").1, hbindings]
    rfl

end FlowScript
