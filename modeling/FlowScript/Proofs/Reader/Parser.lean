import FlowScript.Proofs.Reader.Lexer
import FlowScript.Script.Syntax

/-!
Values in object notation, as a runtime reads them from tokens. The parser keeps the objects that
are open, from the inside out.
-/

namespace FlowScript.Reader

/-- An object whose value for a key is being read. -/
structure OpenObject where
  entries : List (String × Expr)
  key : String

inductive Parser where
  | value (outer : List OpenObject)
  | key (entries : List (String × Expr)) (outer : List OpenObject)
  | colon (key : String) (entries : List (String × Expr)) (outer : List OpenObject)
  | separator (entries : List (String × Expr)) (outer : List OpenObject)
  | done (value : Expr)

namespace Parser

def deliver (value : Expr) : List OpenObject → Parser
  | [] => .done value
  | top :: outer => .separator (top.entries ++ [(top.key, value)]) outer

def step : Parser → Token → Option Parser
  | .value outer, .opening => some (.key [] outer)
  | .value outer, .literal _ t => some (deliver (.str t) outer)
  | .key entries outer, .word name => some (.colon name entries outer)
  | .key entries outer, .literal .single t => some (.colon t.plainText entries outer)
  | .key entries outer, .closing => some (deliver (.object entries) outer)
  | .colon name entries outer, .colon => some (.value (⟨entries, name⟩ :: outer))
  | .separator entries outer, .comma => some (.key entries outer)
  | .separator entries outer, .closing => some (deliver (.object entries) outer)
  | _, _ => none

def run (parser : Parser) (tokens : List Token) : Option Parser :=
  tokens.foldlM step parser

theorem run_cons_of_some {parser next : Parser} {token : Token} (h : step parser token = some next)
    (tokens : List Token) : run parser (token :: tokens) = run next tokens := by
  show (step parser token).bind (run · tokens) = _
  rw [h, Option.bind_some]

theorem run_append_of_some {parser next : Parser} {tokens : List Token}
    (h : run parser tokens = some next) (more : List Token) :
    run parser (tokens ++ more) = run next more := by
  show (tokens ++ more).foldlM step parser = _
  rw [List.foldlM_append]
  show (run parser tokens).bind (run · more) = _
  rw [h, Option.bind_some]

end Parser

def parse (tokens : List Token) : Option Expr :=
  match Parser.run (.value []) tokens with
  | some (.done value) => some value
  | _ => none

def read (bag text : String) : Option Expr :=
  (lex bag text).bind parse

theorem read_eq_of_lex_eq {bag text text' : String} (h : lex bag text = lex bag text') :
    read bag text = read bag text' := by
  rw [read, h, read]

end FlowScript.Reader
