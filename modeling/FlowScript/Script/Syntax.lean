import FlowScript.Template.Basic
import FlowScript.Json.Value

/-!
The script language: expressions, statements and the six sections of a script.
-/

namespace FlowScript

inductive Export where
  | named (name : String)
  | default
  deriving DecidableEq, Repr

mutual

inductive Expr where
  /-- A string whose variables are interpolated. -/
  | str (t : Template)
  /-- A piece of code whose variables are looked up in the bag. -/
  | code (t : Template)
  | ident (name : String)
  | json (value : Json)
  | object (entries : List (String × Expr))
  | call (callee : String) (args : List Expr)
  | arrow (params : List String) (body : Expr)
  | function (params : List String) (body : List Stmt)

inductive Stmt where
  | raw (line : String)
  | const (name : String) (value : Expr)
  | exportConst (name : String) (value : Expr)
  | assign (slot : String) (value : Expr)
  | expr (value : Expr)
  | ret (value : Expr)
  | function (how : Export) (params : List String) (body : List Stmt)

end

namespace Expr

def text (s : String) : Expr :=
  .str (.literal s)

end Expr

inductive SectionKind where
  | imports
  | options
  | summary
  | setup
  | teardown
  | main
  deriving DecidableEq, Repr

namespace SectionKind

def textOrder : List SectionKind :=
  [.imports, .options, .summary, .setup, .teardown, .main]

def runtimeOrder : List SectionKind :=
  [.imports, .options, .summary, .setup, .main, .teardown]

/-- The sections whose assignments reach a section besides its own. The runtime hands on only the
bag that `setup` returns; what the main function assigns stays with its virtual user. -/
def inheritsFrom : SectionKind → List SectionKind
  | .main | .teardown => [.setup]
  | _ => []

end SectionKind

structure Section where
  kind : SectionKind
  body : List Stmt

structure Script where
  sections : List Section

namespace Script

def find? (script : Script) (kind : SectionKind) : Option Section :=
  script.sections.find? (·.kind = kind)

def inTextOrder (script : Script) : List Section :=
  SectionKind.textOrder.flatMap fun kind => script.sections.filter (·.kind = kind)

end Script

end FlowScript
