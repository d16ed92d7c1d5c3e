import FlowScript.Proofs.Compile.Effects
import FlowScript.Proofs.Compile.PathTokens

/-! The script of a flow as a value, and the effects of compiling it. -/

namespace FlowScript

open Compile

variable {settings : Settings}

namespace Request

theorem performs_missingToken (ref : StepRef) (token : String) :
    (missingToken ref token).Performs settings () [.gap ref token] := by
  intro strictness session
  cases strictness with
  | strict => exact ⟨rfl, rfl⟩
  | permissive => exact ⟨rfl, congrArg (Effect.Trail.mk _) (warnings_push_warn _ rfl)⟩

def filled (request : Request) : String :=
  Endpoint.filled request.endpoint request.params

def missingTokens (request : Request) : List String :=
  Endpoint.missingTokens request.endpoint request.params

def urlTemplate (request : Request) : Template :=
  appendQuery request.query "?" (.parse (Text.trimEnd '/' request.filled))

def stmt (request : Request) (ref : StepRef) : Stmt :=
  .const ref.resultVar
    (.call ("http." ++ request.method.lower) (.str request.urlTemplate :: request.arguments))

theorem performs_url (request : Request) (ref : StepRef) :
    (request.url ref).Performs settings request.urlTemplate
      (request.missingTokens.map (.gap ref)) := by
  have hmissing : (request.missingTokens.forM (missingToken ref)).Performs settings ()
      (request.missingTokens.map (.gap ref)) := by
    rw [List.map_eq_flatMap]
    exact performs_forM _ (performs_missingToken ref)
  have hfill : (Endpoint.fill request.endpoint request.params (missingToken ref)).Performs
      settings request.filled (request.missingTokens.map (.gap ref)) := by
    rw [Endpoint.fill_eq]
    exact hmissing.bind_pure fun _ => request.filled
  exact hfill.bind_pure fun filled =>
    appendQuery request.query "?" (.parse (Text.trimEnd '/' filled))

theorem performs_compile (request : Request) (ref : StepRef) :
    (request.compile ref).Performs settings (request.stmt ref)
      (request.missingTokens.map (.gap ref)) :=
  (request.performs_url ref).bind_pure _

end Request

theorem Assignment.performs_register (assignment : Assignment) (ref : StepRef) :
    (assignment.register ref).Performs settings ()
      [.bind ⟨assignment.name, ref, assignment.path⟩] :=
  (Compile.performs_register _).andThen (performs_report (by simp))

namespace Step

def stmts (step : Step) (ref : StepRef) : List Stmt :=
  step.request.stmt ref :: step.checkStmts ref ++ step.assignments.map (·.stmt ref) ++
    step.sleepStmts

def effects (step : Step) (ref : StepRef) : List Effect :=
  step.request.missingTokens.map (.gap ref) ++
    step.assignments.map fun assignment => .bind ⟨assignment.name, ref, assignment.path⟩

theorem gaps_effects (step : Step) (ref : StepRef) :
    Effect.gaps (step.effects ref) = step.request.missingTokens.map (ref, ·) := by
  have hbindings : Effect.gaps (step.assignments.map fun assignment =>
      .bind ⟨assignment.name, ref, assignment.path⟩) = [] := by
    simp [Effect.gaps, List.filterMap_map]
  rw [effects, Effect.gaps_append, Effect.gaps_map_gap, hbindings, List.append_nil]

theorem performs_compile (step : Step) (ref : StepRef) :
    (step.compile ref).Performs settings (step.stmts ref) (step.effects ref) := by
  have hregister : (step.assignments.forM (·.register ref)).Performs settings ()
      (step.assignments.map fun assignment =>
        .bind ⟨assignment.name, ref, assignment.path⟩) := by
    rw [List.map_eq_flatMap]
    exact performs_forM _ fun assignment => assignment.performs_register ref
  exact (step.request.performs_compile ref).bind _
    (hregister.reporting (fun _ => step.stmts ref) (by simp))

end Step

def stepsStmts (place : Nat → StepRef) : Nat → List Step → List Stmt
  | _, [] => []
  | index, step :: rest => step.stmts (place index) ++ stepsStmts place (index + 1) rest

def stepsEffects (place : Nat → StepRef) : Nat → List Step → List Effect
  | _, [] => []
  | index, step :: rest => step.effects (place index) ++ stepsEffects place (index + 1) rest

theorem performs_compileSteps (place : Nat → StepRef) (index : Nat) (steps : List Step) :
    (compileSteps place index steps).Performs settings (stepsStmts place index steps)
      (stepsEffects place index steps) := by
  induction steps generalizing index with
  | nil => exact performs_pure []
  | cons step rest ih =>
    refine (step.performs_compile (place index)).bind _ ?_
    exact (ih (index + 1)).bind_pure _

namespace Group

def stmt (group : Group) (index : Nat) : Stmt :=
  .expr (.call "k6.group" [.text (group.title index),
    .function [] (stepsStmts (.item index) 0 group.steps)])

theorem performs_compile (group : Group) (index : Nat) :
    (group.compile index).Performs settings (group.stmt index)
      (stepsEffects (.item index) 0 group.steps) := by
  exact (performs_compileSteps (.item index) 0 group.steps).reporting _ (by simp)

end Group

def groupsStmts : Nat → List Group → List Stmt
  | _, [] => []
  | index, group :: rest => group.stmt index :: groupsStmts (index + 1) rest

def groupsEffects : Nat → List Group → List Effect
  | _, [] => []
  | index, group :: rest =>
    stepsEffects (.item index) 0 group.steps ++ groupsEffects (index + 1) rest

theorem performs_compileGroups (index : Nat) (groups : List Group) :
    (compileGroups index groups).Performs settings (groupsStmts index groups)
      (groupsEffects index groups) := by
  induction groups generalizing index with
  | nil => exact performs_pure []
  | cons group rest ih =>
    refine (group.performs_compile index).bind _ ?_
    exact (ih (index + 1)).bind_pure _

namespace Flow

def setupBody (flow : Flow) (settings : Settings) : List Stmt :=
  [logLine "[Setup]: Starting test execution", .const settings.bag (.object [])] ++
    stepsStmts .precondition 0 flow.precondition ++ [.ret (.ident settings.bag)]

def mainBody (flow : Flow) : List Stmt :=
  groupsStmts 0 flow.items

def teardownBody (flow : Flow) : List Stmt :=
  stepsStmts .postcondition 0 flow.postcondition ++
    [logLine "[Teardown]: Test execution completed"]

def scriptFor (flow : Flow) (settings : Settings) : Script where
  sections := [importsSection, optionsSection flow, summarySection settings,
    ⟨.setup, [.function (.named "setup") [] (flow.setupBody settings)]⟩,
    ⟨.teardown, [.function (.named "teardown") [settings.bag] flow.teardownBody]⟩,
    ⟨.main, [.function .default [settings.bag] flow.mainBody]⟩]

def effects (flow : Flow) : List Effect :=
  stepsEffects .precondition 0 flow.precondition ++ groupsEffects 0 flow.items ++
    stepsEffects .postcondition 0 flow.postcondition

theorem performs_setupSection (flow : Flow) :
    (setupSection flow).Performs settings
      ⟨.setup, [.function (.named "setup") [] (flow.setupBody settings)]⟩
      (stepsEffects .precondition 0 flow.precondition) :=
  performs_read fun _ => (performs_compileSteps .precondition 0 flow.precondition).bind_pure _

theorem performs_mainSection (flow : Flow) :
    (mainSection flow).Performs settings
      ⟨.main, [.function .default [settings.bag] flow.mainBody]⟩ (groupsEffects 0 flow.items) :=
  performs_read fun _ => (performs_compileGroups 0 flow.items).bind_pure _

theorem performs_teardownSection (flow : Flow) :
    (teardownSection flow).Performs settings
      ⟨.teardown, [.function (.named "teardown") [settings.bag] flow.teardownBody]⟩
      (stepsEffects .postcondition 0 flow.postcondition) :=
  performs_read fun _ => (performs_compileSteps .postcondition 0 flow.postcondition).bind_pure _

theorem performs_script (flow : Flow) (settings : Settings) :
    flow.script.Performs settings (flow.scriptFor settings) flow.effects := by
  unfold effects
  rw [List.append_assoc]
  -- The main function is compiled before the teardown, whose text stands in front of it.
  refine flow.performs_setupSection.bind _ (flow.performs_mainSection.bind _ ?_)
  rw [← List.append_nil (stepsEffects .postcondition 0 flow.postcondition)]
  refine flow.performs_teardownSection.bind _ (performs_read fun _ => performs_get fun _ => ?_)
  exact (performs_report (by simp)).andThen (performs_pure _)

end Flow

end FlowScript
