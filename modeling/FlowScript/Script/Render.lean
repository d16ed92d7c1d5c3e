import FlowScript.Json.Printer
import FlowScript.Script.Literal
import FlowScript.Script.Syntax

/-!
The text of expressions, statements and scripts. Every statement and every object entry takes a line
of its own, and nothing is indented.
-/

namespace FlowScript

def paramsText (params : List String) : String :=
  ", ".intercalate params

def Export.text : Export → String
  | .named name => "export function " ++ name
  | .default => "export default function "

mutual

def Expr.render (bag : String) : Expr → String
  | .str t => t.literalText bag
  | .code t => t.codeText bag
  | .ident name => name
  | .json value => value.pretty
  | .object [] => "\x7b\x7d"
  | .object entries => "\x7b\n" ++ renderEntries bag entries ++ "\x7d"
  | .call callee args => callee ++ "(" ++ ", ".intercalate (renderArgs bag args) ++ ")"
  | .arrow params body => "(" ++ paramsText params ++ ") => " ++ body.render bag
  | .function params body =>
    "function (" ++ paramsText params ++ ") \x7b\n" ++ renderStmts bag body ++ "\x7d"

def Stmt.render (bag : String) : Stmt → String
  | .raw line => line ++ "\n"
  | .const name value => "const " ++ name ++ " = " ++ value.render bag ++ "\n"
  | .exportConst name value => "export const " ++ name ++ " = " ++ value.render bag ++ "\n"
  | .assign slot value => Template.lookup bag slot ++ " = " ++ value.render bag ++ "\n"
  | .expr value => value.render bag ++ "\n"
  | .ret value => "return " ++ value.render bag ++ "\n"
  | .function how params body =>
    how.text ++ "(" ++ paramsText params ++ ") \x7b\n" ++ renderStmts bag body ++ "\x7d\n"

def renderEntries (bag : String) : List (String × Expr) → String
  | [] => ""
  | (key, value) :: rest =>
    Literal.key key ++ ": " ++ value.render bag ++ ",\n" ++ renderEntries bag rest

def renderArgs (bag : String) : List Expr → List String
  | [] => []
  | arg :: rest => arg.render bag :: renderArgs bag rest

def renderStmts (bag : String) : List Stmt → String
  | [] => ""
  | stmt :: rest => stmt.render bag ++ renderStmts bag rest

end

def Script.render (bag : String) (script : Script) : String :=
  String.join (script.inTextOrder.map fun sect => renderStmts bag sect.body ++ "\n")

end FlowScript
