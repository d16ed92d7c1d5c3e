import FlowScript.Script.Syntax

/-!
The variable events of a script in the order in which the runtime meets them: a read for each
variable of a template, and a write for each assignment, after the reads of the value it stores.
-/

namespace FlowScript

inductive VarEvent where
  | used (name : String)
  | assigned (name : String)
  deriving DecidableEq, Repr

def Template.varEvents (t : Template) : List VarEvent :=
  t.varNames.map .used

mutual

def Expr.varEvents : Expr → List VarEvent
  | .str t => t.varEvents
  | .code t => t.varEvents
  | .ident _ => []
  | .json _ => []
  | .object entries => entriesVarEvents entries
  | .call _ args => exprsVarEvents args
  | .arrow _ body => body.varEvents
  | .function _ body => stmtsVarEvents body

def Stmt.varEvents : Stmt → List VarEvent
  | .raw _ => []
  | .const _ value => value.varEvents
  | .exportConst _ value => value.varEvents
  | .assign slot value => value.varEvents ++ [.assigned slot]
  | .expr value => value.varEvents
  | .ret value => value.varEvents
  | .function _ _ body => stmtsVarEvents body

def entriesVarEvents : List (String × Expr) → List VarEvent
  | [] => []
  | (_, value) :: rest => value.varEvents ++ entriesVarEvents rest

def exprsVarEvents : List Expr → List VarEvent
  | [] => []
  | value :: rest => value.varEvents ++ exprsVarEvents rest

def stmtsVarEvents : List Stmt → List VarEvent
  | [] => []
  | stmt :: rest => stmt.varEvents ++ stmtsVarEvents rest

end

def Section.varEvents (sect : Section) : List (SectionKind × VarEvent) :=
  (stmtsVarEvents sect.body).map (sect.kind, ·)

/-- The events of a whole script, tagged with their sections. Only the first section of a kind is
executed. -/
def Script.varEvents (script : Script) : List (SectionKind × VarEvent) :=
  SectionKind.runtimeOrder.flatMap fun kind =>
    match script.find? kind with
    | some sect => sect.varEvents
    | none => []

end FlowScript
