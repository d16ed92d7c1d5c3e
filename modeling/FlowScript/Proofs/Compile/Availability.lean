import FlowScript.Proofs.Compile.Reads
import FlowScript.Proofs.Compile.Strictness
import FlowScript.Proofs.Script.Supply
import Mathlib.Tactic.Tauto

/-! When strict compilation accepts a flow, in terms of the flow alone: every path token has a
parameter, and every placeholder has a binding that reaches it. -/

namespace FlowScript

open Template (placeholders)

/-- The name stands as a placeholder in a text of the step that is evaluated before any of its
bindings. -/
inductive Step.Reads (step : Step) (name : String) : Prop where
  | endpoint (h : name ∈ placeholders step.request.filled)
  | query {pair : Pair} (hpair : pair ∈ step.request.query)
      (h : name ∈ placeholders pair.value.plainText)
  | bearer {datum : AuthDatum} {others : List AuthDatum}
      (hauth : step.request.auth = some ⟨.bearer, datum :: others⟩)
      (h : name ∈ placeholders datum.value.plainText)
  | header {pair : Pair} (hpair : pair ∈ step.request.headers)
      (h : name ∈ placeholders pair.value.plainText)
  | cookie {pair : Pair} (hpair : pair ∈ step.request.cookies)
      (h : name ∈ placeholders pair.value.plainText)
  | body {members : List (String × Json)} {key : String} {value : Json}
      (hbody : step.request.body = some members) (hmember : (key, value) ∈ members)
      (h : name ∈ placeholders value.plainText)
  | check {response : Response} {check : Check} {path : String}
      (hresponse : step.response = some response) (hcheck : check ∈ response.checks)
      (hpath : check.path = some path) (h : name ∈ placeholders path)
      (hvalue : name ≠ expectedValue)

def Step.Binds (step : Step) (name : String) : Prop :=
  ∃ assignment ∈ step.assignments, assignment.name = name

/-- Every placeholder of the step has a binding among the producers. A placeholder in the path of a
binding may also refer to an earlier binding of the step itself. -/
structure Step.BoundBy (step : Step) (producers : List Step) : Prop where
  reads : ∀ name, step.Reads name → ∃ producer ∈ producers, producer.Binds name
  bindings : ∀ before assignment after, step.assignments = before ++ assignment :: after →
    ∀ name ∈ placeholders assignment.path,
      (∃ producer ∈ producers, producer.Binds name) ∨
      ∃ earlier ∈ before, earlier.name = name

def Flow.itemSteps (flow : Flow) : List Step :=
  flow.items.flatMap Group.steps

/-- The bindings of the producers, and of no other steps, reach the step. -/
inductive Flow.Reach (flow : Flow) : List Step → Step → Prop where
  | precondition {before : List Step} {step : Step} {after : List Step}
      (h : flow.precondition = before ++ step :: after) :
      flow.Reach before step
  | item {before : List Step} {step : Step} {after : List Step}
      (h : flow.itemSteps = before ++ step :: after) :
      flow.Reach (flow.precondition ++ before) step
  | postcondition {before : List Step} {step : Step} {after : List Step}
      (h : flow.postcondition = before ++ step :: after) :
      flow.Reach (flow.precondition ++ before) step

def Flow.steps (flow : Flow) : List Step :=
  flow.precondition ++ flow.itemSteps ++ flow.postcondition

def Step.TokensFilled (step : Step) : Prop :=
  ∀ name, Endpoint.IsToken name step.request.endpoint.toList →
    ∃ pair ∈ step.request.params, pair.key = String.ofList name

theorem Step.mem_checkReads {step : Step} {name : String} :
    name ∈ step.checkReads ↔ ∃ response, step.response = some response ∧
      ∃ check ∈ response.checks, name ∈ check.reads := by
  unfold checkReads checks
  cases step.response <;> simp

theorem Check.mem_reads {check : Check} {name : String} :
    name ∈ check.reads ↔
      ∃ path, check.path = some path ∧ name ∈ placeholders path ∧ name ≠ expectedValue := by
  unfold reads
  cases check.path with
  | none => simp [placeholders, Template.scan, Template.Token.scanChars]
  | some path => simp

theorem mem_valueReads {values : List Json} {name : String} :
    name ∈ valueReads values ↔ ∃ value ∈ values, name ∈ placeholders value.plainText :=
  List.mem_flatMap

namespace Request

theorem mem_argumentReads {request : Request} {name : String} :
    name ∈ request.argumentReads ↔ name ∈ request.bearerReads ∨ name ∈ request.headerReads ∨
      name ∈ request.cookieReads ∨ name ∈ request.bodyReads := by
  unfold argumentReads
  split
  · simp only [List.mem_append]
    tauto
  · simp only [List.mem_append, or_assoc]

theorem mem_bearerReads {request : Request} {name : String} :
    name ∈ request.bearerReads ↔ ∃ datum others,
      request.auth = some ⟨.bearer, datum :: others⟩ ∧
      name ∈ placeholders datum.value.plainText := by
  simp only [bearerReads, mem_valueReads, Option.mem_toList, bearer?_eq_some_iff]
  constructor
  · rintro ⟨value, ⟨datum, others, hauth, rfl⟩, h⟩
    exact ⟨datum, others, hauth, h⟩
  · rintro ⟨datum, others, hauth, h⟩
    exact ⟨datum.value, ⟨datum, others, hauth, rfl⟩, h⟩

theorem mem_bodyReads {request : Request} {name : String} :
    name ∈ request.bodyReads ↔ ∃ members, request.body = some members ∧
      ∃ key value, (key, value) ∈ members ∧ name ∈ placeholders value.plainText := by
  unfold bodyReads
  rw [mem_valueReads]
  cases request.body with
  | none => simp
  | some members =>
    constructor
    · rintro ⟨_, hvalue, h⟩
      obtain ⟨⟨key, value⟩, hmember, rfl⟩ := List.mem_map.mp hvalue
      exact ⟨members, rfl, key, value, hmember, h⟩
    · rintro ⟨_, hbody, key, value, hmember, h⟩
      obtain rfl := Option.some.inj hbody
      exact ⟨value, List.mem_map.mpr ⟨(key, value), hmember, rfl⟩, h⟩

end Request

theorem mem_pairReads {pairs : List Pair} {name : String} :
    name ∈ valueReads (pairs.map (·.value)) ↔
      ∃ pair ∈ pairs, name ∈ placeholders pair.value.plainText := by
  simp [mem_valueReads]

theorem Step.reads_iff {step : Step} {name : String} :
    step.Reads name ↔
      name ∈ step.request.urlReads ++ step.request.argumentReads ++ step.checkReads := by
  simp only [List.mem_append, Request.mem_argumentReads, mem_checkReads, Check.mem_reads,
    Request.urlReads, Request.mem_bearerReads, Request.headerReads, Request.cookieReads,
    Request.mem_bodyReads, mem_pairReads]
  constructor
  · intro h
    cases h with
    | endpoint h => exact .inl (.inl (.inl h))
    | query hpair h => exact .inl (.inl (.inr ⟨_, hpair, h⟩))
    | bearer hauth h => exact .inl (.inr (.inl ⟨_, _, hauth, h⟩))
    | header hpair h => exact .inl (.inr (.inr (.inl ⟨_, hpair, h⟩)))
    | cookie hpair h => exact .inl (.inr (.inr (.inr (.inl ⟨_, hpair, h⟩))))
    | body hbody hmember h =>
      exact .inl (.inr (.inr (.inr (.inr ⟨_, hbody, _, _, hmember, h⟩))))
    | check hresponse hcheck hpath h hvalue =>
      exact .inr ⟨_, hresponse, _, hcheck, _, hpath, h, hvalue⟩
  · rintro (((h | ⟨_, hpair, h⟩) | (⟨_, _, hauth, h⟩ | ⟨_, hpair, h⟩ | ⟨_, hpair, h⟩ |
      ⟨_, hbody, _, _, hmember, h⟩)) | ⟨_, hresponse, _, hcheck, _, hpath, h, hvalue⟩)
    · exact .endpoint h
    · exact .query hpair h
    · exact .bearer hauth h
    · exact .header hpair h
    · exact .cookie hpair h
    · exact .body hbody hmember h
    · exact .check hresponse hcheck hpath h hvalue

theorem Step.boundBy_iff (step : Step) (producers : List Step) :
    step.BoundBy producers ↔
      Supplied (fun name => ∃ producer ∈ producers, producer.Binds name) step.events := by
  have hassignments : Supplied (fun name => ∃ producer ∈ producers, producer.Binds name)
      (step.assignments.flatMap Assignment.events) ↔
      ∀ before assignment after, step.assignments = before ++ assignment :: after →
        ∀ name ∈ placeholders assignment.path,
          (∃ producer ∈ producers, producer.Binds name) ∨
          ∃ earlier ∈ before, earlier.name = name := by
    rw [supplied_flatMap]
    simp [Assignment.events, supplied_append, supplied_map_used, Supplied, eq_comm]
  have hused : Supplied (fun name => (∃ producer ∈ producers, producer.Binds name) ∨
        .assigned name ∈ (step.request.urlReads ++ step.request.argumentReads ++
          step.checkReads).map VarEvent.used) (step.assignments.flatMap Assignment.events) ↔
      Supplied (fun name => ∃ producer ∈ producers, producer.Binds name)
        (step.assignments.flatMap Assignment.events) :=
    supplied_congr (by simp) _
  rw [events, supplied_append, supplied_map_used]
  rw [hused, hassignments]
  simp only [← reads_iff]
  exact ⟨fun h => ⟨h.reads, h.bindings⟩, fun h => ⟨h.1, h.2⟩⟩

theorem assigned_mem_flatMap_events {steps : List Step} {name : String} :
    .assigned name ∈ steps.flatMap Step.events ↔ ∃ step ∈ steps, step.Binds name := by
  simp only [List.mem_flatMap, Step.assigned_mem_events, Step.Binds]

theorem supplied_steps_iff (producers steps : List Step) :
    Supplied (fun name => ∃ producer ∈ producers, producer.Binds name)
        (steps.flatMap Step.events) ↔
      ∀ before step after, steps = before ++ step :: after →
        step.BoundBy (producers ++ before) := by
  rw [supplied_flatMap]
  refine forall₄_congr fun before step after _ => ?_
  rw [Step.boundBy_iff]
  refine supplied_congr (fun name => ?_) _
  simp only [List.mem_append, or_and_right, exists_or, Step.assigned_mem_events, Step.Binds]

namespace Flow

theorem gaps_step_eq_nil_iff (step : Step) (ref : StepRef) :
    Effect.gaps (step.effects ref) = [] ↔ step.TokensFilled := by
  rw [step.gaps_effects, List.map_eq_nil_iff]
  exact Endpoint.missingTokens_eq_nil_iff _ _

theorem gaps_steps_eq_nil_iff (place : Nat → StepRef) (index : Nat) (steps : List Step) :
    Effect.gaps (stepsEffects place index steps) = [] ↔ ∀ step ∈ steps, step.TokensFilled := by
  induction steps generalizing index with
  | nil => simp [stepsEffects, Effect.gaps]
  | cons step rest ih => simp [stepsEffects, gaps_step_eq_nil_iff, ih]

theorem gaps_groups_eq_nil_iff (index : Nat) (groups : List Group) :
    Effect.gaps (groupsEffects index groups) = [] ↔
      ∀ step ∈ groups.flatMap Group.steps, step.TokensFilled := by
  induction groups generalizing index with
  | nil => simp [groupsEffects, Effect.gaps]
  | cons group rest ih =>
    rw [groupsEffects, Effect.gaps_append, List.append_eq_nil_iff, gaps_steps_eq_nil_iff, ih,
      List.flatMap_cons, List.forall_mem_append]

theorem gaps_effects_eq_nil_iff (flow : Flow) :
    Effect.gaps flow.effects = [] ↔ ∀ step ∈ flow.steps, step.TokensFilled := by
  rw [effects, Effect.gaps_append, Effect.gaps_append, List.append_eq_nil_iff,
    List.append_eq_nil_iff, gaps_steps_eq_nil_iff, gaps_steps_eq_nil_iff, gaps_groups_eq_nil_iff,
    steps, List.forall_mem_append, List.forall_mem_append, itemSteps]

theorem varEvents_setupBody (flow : Flow) (settings : Settings) :
    stmtsVarEvents (flow.setupBody settings) = flow.precondition.flatMap Step.events := by
  simp [setupBody, logLine, stmtsVarEvents, Stmt.varEvents, Expr.varEvents, exprsVarEvents,
    entriesVarEvents, stmtsVarEvents_stepsStmts]

theorem varEvents_mainBody (flow : Flow) :
    stmtsVarEvents flow.mainBody = flow.itemSteps.flatMap Step.events :=
  stmtsVarEvents_groupsStmts 0 flow.items

theorem varEvents_teardownBody (flow : Flow) :
    stmtsVarEvents flow.teardownBody = flow.postcondition.flatMap Step.events := by
  simp [teardownBody, logLine, stmtsVarEvents, Stmt.varEvents, Expr.varEvents, exprsVarEvents,
    stmtsVarEvents_stepsStmts]

theorem varEvents_summarySection (settings : Settings) :
    (summarySection settings).varEvents = [] := by
  simp [Section.varEvents, summarySection, stmtsVarEvents, Stmt.varEvents, Expr.varEvents,
    entriesVarEvents, exprsVarEvents]

theorem varEvents_scriptFor (flow : Flow) (settings : Settings) :
    (flow.scriptFor settings).varEvents =
      (flow.precondition.flatMap Step.events).map (.setup, ·) ++
      (flow.itemSteps.flatMap Step.events).map (.main, ·) ++
      (flow.postcondition.flatMap Step.events).map (.teardown, ·) := by
  have himports : importsSection.varEvents = [] := rfl
  have hoptions : (optionsSection flow).varEvents = [] := rfl
  have hsummary := varEvents_summarySection settings
  rw [← varEvents_setupBody flow settings, ← varEvents_mainBody, ← varEvents_teardownBody]
  change importsSection.varEvents ++ ((optionsSection flow).varEvents ++
    ((summarySection settings).varEvents ++
      ((stmtsVarEvents (flow.setupBody settings) ++ []).map (.setup, ·) ++
        ((stmtsVarEvents flow.mainBody ++ []).map (.main, ·) ++
          ((stmtsVarEvents flow.teardownBody ++ []).map (.teardown, ·) ++ []))))) = _
  rw [himports, hoptions, hsummary]
  simp only [List.nil_append, List.append_nil, List.append_assoc]

theorem unresolved_eq_nil_iff (flow : Flow) (settings : Settings) :
    flow.unresolved settings = [] ↔
      ∀ producers step, flow.Reach producers step → step.BoundBy producers := by
  -- What each phase sees before its first step. The assignments of the main function are in the
  -- list when the teardown starts, but the teardown inherits from the setup alone.
  have hsetup (name : String) : isVisible [] .setup name = true ↔
      ∃ producer ∈ ([] : List Step), producer.Binds name := by
    simp [isVisible_iff, SectionKind.inheritsFrom]
  have hmain (name : String) :
      isVisible (assignedAfter [] ((flow.precondition.flatMap Step.events).map (.setup, ·))) .main
        name = true ↔ ∃ producer ∈ flow.precondition, producer.Binds name := by
    rw [isVisible_iff, ← assigned_mem_flatMap_events]
    simp [mem_assignedAfter, SectionKind.inheritsFrom]
  have hteardown (name : String) :
      isVisible (assignedAfter [] ((flow.precondition.flatMap Step.events).map (.setup, ·) ++
        (flow.itemSteps.flatMap Step.events).map (.main, ·))) .teardown name = true ↔
        ∃ producer ∈ flow.precondition, producer.Binds name := by
    rw [isVisible_iff, ← assigned_mem_flatMap_events]
    simp [mem_assignedAfter, SectionKind.inheritsFrom]
  unfold unresolved Script.unresolved
  rw [varEvents_scriptFor, unresolvedReads_append, unresolvedReads_append,
    List.append_eq_nil_iff, List.append_eq_nil_iff, unresolvedReads_eq_nil_iff,
    unresolvedReads_eq_nil_iff, unresolvedReads_eq_nil_iff, supplied_congr hsetup,
    supplied_congr hmain, supplied_congr hteardown, supplied_steps_iff, supplied_steps_iff,
    supplied_steps_iff]
  constructor
  · rintro ⟨⟨hpre, hitem⟩, hpost⟩ producers step hreach
    cases hreach with
    | precondition h => exact hpre _ step _ h
    | item h => exact hitem _ step _ h
    | postcondition h => exact hpost _ step _ h
  · intro h
    exact ⟨⟨fun _ step _ hsplit => h _ step (.precondition hsplit),
      fun _ step _ hsplit => h _ step (.item hsplit)⟩,
      fun _ step _ hsplit => h _ step (.postcondition hsplit)⟩

end Flow

/-- Strict compilation succeeds exactly if every path token has a parameter and every placeholder a
binding that reaches it. -/
theorem Flow.strict_isOk_iff (flow : Flow) (settings : Settings) :
    (flow.compileWith { settings with strictness := .strict }).1.isOk ↔
      (∀ step ∈ flow.steps, step.TokensFilled) ∧
      ∀ producers step, flow.Reach producers step → step.BoundBy producers := by
  rw [flow.compile_strict settings, ← flow.gaps_effects_eq_nil_iff,
    ← flow.unresolved_eq_nil_iff settings]
  cases Effect.gaps flow.effects with
  | cons gap others => simp [Except.isOk, Except.toBool]
  | nil =>
    cases flow.unresolved settings with
    | cons read others => simp [Except.isOk, Except.toBool]
    | nil => simp [Except.isOk, Except.toBool]

end FlowScript
