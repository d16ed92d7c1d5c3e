import FlowScript.Compile.Session
import FlowScript.Compile.PlainText
import FlowScript.Flow.Basic
import FlowScript.Script.Syntax

/-!
What a step does with its result: checks and bindings. In the paths of both, a bare dollar sign
stands for the result.
-/

namespace FlowScript

open Template (Token)

def checkParam : String := "r"

def expectedValue : String := "value"

namespace Check

/-- The condition of a check. The expected value is put in as a JSON text, in which nothing is a
placeholder; all other placeholders stay variables. -/
def condition (check : Check) : Template :=
  .ofTokens checkParam
    ((Template.scan (check.path.getD "")).map fun token =>
      if token = .var expectedValue then .text check.value.compact else token)
    .empty

def entry (check : Check) : String × Expr :=
  (check.label, .arrow [checkParam] (.code check.condition))

end Check

namespace Step

def checks (step : Step) : List Check :=
  (step.response.map (·.checks)).getD []

def checkStmts (step : Step) (ref : StepRef) : List Stmt :=
  match step.checks with
  | [] => []
  | checks =>
    [.expr (.call "k6.check" [.ident ref.resultVar, .object (checks.map Check.entry)])]

end Step

/-- A path that starts with a bracket or a point, or is empty, follows the result at once. -/
def startsWithAccess : List Char → Bool
  | [] => true
  | c :: _ => c == '.' || c == '['

/-- What a path takes from a result. A path that starts with a bare dollar sign holds the result
itself; any other is appended to it. -/
def extraction (result path : String) : Template :=
  let path := Text.trim path
  let tokens := Template.scan path
  let start :=
    if tokens.head? = some .bare then Template.empty
    else if startsWithAccess path.toList then .literal result
    else .literal (result ++ ".")
  .ofTokens result tokens start

namespace Assignment

def stmt (assignment : Assignment) (ref : StepRef) : Stmt :=
  .assign assignment.name (.code (extraction ref.resultVar assignment.path))

def register (assignment : Assignment) (ref : StepRef) : Compile Unit := do
  Compile.register ⟨assignment.name, ref, assignment.path⟩
  Compile.report ⟨.debug, "registered variable",
    [("step", ref.display), ("name", assignment.name), ("path", assignment.path)]⟩

end Assignment

end FlowScript
