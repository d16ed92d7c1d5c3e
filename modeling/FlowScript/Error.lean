import FlowScript.Flow.StepRef

/-!
What can be wrong with a descriptor or fail its compilation.
-/

namespace FlowScript

inductive CompileError where
  | json (problem : String)
  | unsupportedFlowKind (kind : String)
  | unsupportedMethod (step : StepRef) (method : String)
  | unsupportedStepKind (step : StepRef) (kind : String)
  | unsupportedAuthKind (step : StepRef) (kind : String)
  | unsupportedResponseKind (step : StepRef) (kind : String)
  | unsupportedVariableSource (step : StepRef) (name source : String)
  | invalidVariableName (step : StepRef) (name : String)
  | missingField (step : StepRef) (field : String)
  | unresolvedPathToken (step : StepRef) (token : String)
  | unresolvedVariable (name : String)
  | invalidDescriptor (all : List CompileError)
  deriving Repr

namespace CompileError

mutual

def message : CompileError → String
  | .json problem => "Failed to parse flow descriptor JSON: " ++ problem
  | .unsupportedFlowKind kind =>
    "Unsupported flow kind '" ++ kind ++ "', only 'load_testing' can be compiled"
  | .unsupportedMethod step method =>
    "Step " ++ step.display ++ " uses unsupported method '" ++ method ++ "'"
  | .unsupportedStepKind step kind =>
    "Step " ++ step.display ++ " has unsupported kind '" ++ kind ++
      "', only 'api' steps can be compiled"
  | .unsupportedAuthKind step kind =>
    "Step " ++ step.display ++ " has unsupported auth kind '" ++ kind ++ "'"
  | .unsupportedResponseKind step kind =>
    "Step " ++ step.display ++ " has unsupported response kind '" ++ kind ++ "'"
  | .unsupportedVariableSource step name source =>
    "Step " ++ step.display ++ " binds variable '" ++ name ++ "' from unsupported source '" ++
      source ++ "'"
  | .invalidVariableName step name =>
    "Step " ++ step.display ++ " binds variable '" ++ name ++ "', which is not a valid identifier"
  | .missingField step field =>
    "Step " ++ step.display ++ " is missing required field '" ++ field ++ "'"
  | .unresolvedPathToken step token =>
    "Step " ++ step.display ++ " endpoint token ':" ++ token ++ "' has no matching params entry"
  | .unresolvedVariable name =>
    "Variable '" ++ name ++ "' is used where no earlier step has made it available"
  | .invalidDescriptor all =>
    "Descriptor has " ++ toString all.length ++ " violations: " ++ "; ".intercalate (messages all)

def messages : List CompileError → List String
  | [] => []
  | error :: rest => error.message :: messages rest

end

def violations : CompileError → List CompileError
  | .invalidDescriptor all => all
  | error => [error]

end CompileError

end FlowScript
