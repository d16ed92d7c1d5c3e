/-!
The place of a step in a flow.
-/

namespace FlowScript

inductive StepRef where
  | precondition (index : Nat)
  | postcondition (index : Nat)
  | item (group step : Nat)
  deriving DecidableEq, Repr

namespace StepRef

/-- The name of the local constant that holds the result of the step. -/
def resultVar : StepRef → String
  | .precondition i => "req_" ++ toString i
  | .postcondition i => "post_req_" ++ toString i
  | .item g s => "req_" ++ toString g ++ "_" ++ toString s

def display : StepRef → String
  | .precondition i => "precondition[" ++ toString i ++ "]"
  | .postcondition i => "postcondition[" ++ toString i ++ "]"
  | .item g s => "items[" ++ toString g ++ "].steps[" ++ toString s ++ "]"

end StepRef

end FlowScript
