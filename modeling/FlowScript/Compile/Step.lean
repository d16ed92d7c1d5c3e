import FlowScript.Compile.Request
import FlowScript.Compile.Result

/-!
Steps as statements: the request, then its checks, then the assignments, then the pause.
-/

namespace FlowScript

namespace Step

def sleepStmts (step : Step) : List Stmt :=
  (step.sleep.map fun seconds =>
    Stmt.expr (.call "k6.sleep" [.ident (secondsText seconds)])).toList

def compile (step : Step) (ref : StepRef) : Compile (List Stmt) := do
  let request ← step.request.compile ref
  step.assignments.forM (·.register ref)
  let stmts :=
    request :: step.checkStmts ref ++ step.assignments.map (·.stmt ref) ++ step.sleepStmts
  Compile.report ⟨.debug, "compiled step",
    [("step", ref.display), ("method", step.request.method.upper),
      ("statements", toString stmts.length)]⟩
  return stmts

end Step

def compileSteps (place : Nat → StepRef) : Nat → List Step → Compile (List Stmt)
  | _, [] => return []
  | index, step :: rest => do
    let stmts ← step.compile (place index)
    return stmts ++ (← compileSteps place (index + 1) rest)

end FlowScript
