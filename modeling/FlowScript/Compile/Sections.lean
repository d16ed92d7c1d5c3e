import FlowScript.Compile.Step

/-!
The six sections of a script, and the script of a flow.
-/

namespace FlowScript

def textSummaryModule : String := "https://jslib.k6.io/k6-summary/0.0.1/index.js"

def importsSection : Section where
  kind := .imports
  body := [
    .raw "import k6 from 'k6'",
    .raw "import http from 'k6/http'",
    .raw ("import \x7b textSummary \x7d from '" ++ textSummaryModule ++ "'")]

def optionsSection (flow : Flow) : Section where
  kind := .options
  body := [.exportConst "options" (.json flow.options.toJson)]

def summarySection (settings : Settings) : Section where
  kind := .summary
  body := [.function (.named "handleSummary") ["data"] [.ret (.object [
    (settings.summaryPath, .call "JSON.stringify" [.ident "data"]),
    ("stdout", .call "textSummary" [.ident "data", .object [
      ("indent", .text " "),
      ("enableColors", .ident "true")]])])]]

def logLine (message : String) : Stmt :=
  .expr (.call "console.info" [.text message])

def setupSection (flow : Flow) : Compile Section := do
  let bag := (← read).bag
  let steps ← compileSteps .precondition 0 flow.precondition
  return {
    kind := .setup
    body := [.function (.named "setup") [] (
      [logLine "[Setup]: Starting test execution", .const bag (.object [])] ++ steps ++
        [.ret (.ident bag)])] }

def teardownSection (flow : Flow) : Compile Section := do
  let bag := (← read).bag
  let steps ← compileSteps .postcondition 0 flow.postcondition
  return {
    kind := .teardown
    body := [.function (.named "teardown") [bag] (
      steps ++ [logLine "[Teardown]: Test execution completed"])] }

def Group.title (group : Group) (index : Nat) : String :=
  group.name.getD ("group-" ++ toString index)

def Group.compile (group : Group) (index : Nat) : Compile Stmt := do
  let steps ← compileSteps (.item index) 0 group.steps
  Compile.report ⟨.debug, "compiled group",
    [("group", group.title index), ("steps", toString group.steps.length)]⟩
  return .expr (.call "k6.group" [.text (group.title index), .function [] steps])

def compileGroups : Nat → List Group → Compile (List Stmt)
  | _, [] => return []
  | index, group :: rest => do
    let stmt ← group.compile index
    return stmt :: (← compileGroups (index + 1) rest)

def mainSection (flow : Flow) : Compile Section := do
  let bag := (← read).bag
  let groups ← compileGroups 0 flow.items
  return { kind := .main, body := [.function .default [bag] groups] }

/-- The script of a flow. Its steps are compiled in the order in which the runtime executes them, so
that variables are registered in the order in which they become available. -/
def Flow.script (flow : Flow) : Compile Script := do
  let setup ← setupSection flow
  let main ← mainSection flow
  let teardown ← teardownSection flow
  let script : Script :=
    ⟨[importsSection, optionsSection flow, summarySection (← read), setup, teardown, main]⟩
  Compile.report ⟨.debug, "built script",
    [("sections", toString script.sections.length),
      ("variables", toString (← get).registry.size)]⟩
  return script

end FlowScript
