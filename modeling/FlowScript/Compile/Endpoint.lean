import FlowScript.Compile.PlainText
import FlowScript.Flow.Basic
import FlowScript.Text.Identifier

/-!
Endpoints with path tokens. A token is a colon and the longest identifier behind it; a colon without
an identifier, as in front of a port, is text.
-/

namespace FlowScript

namespace Endpoint

open Text

inductive Piece where
  | text (cs : List Char)
  | token (name : List Char)
  deriving DecidableEq, Repr

def Piece.spelling : Piece → List Char
  | .text cs => cs
  | .token name => ':' :: name

def pieces : List Char → List Piece
  | [] => []
  | c :: cs =>
    if c = ':' then
      match leadingIdent cs with
      | [] => .text [':'] :: pieces cs
      | name => .token name :: pieces (afterIdent cs)
    else .text (c :: cs.takeWhile (· != ':')) :: pieces (cs.dropWhile (· != ':'))
termination_by cs => cs.length
decreasing_by
  · exact Nat.lt_succ_self _
  · exact Nat.lt_succ_of_le (length_afterIdent_le cs)
  · exact Nat.lt_succ_of_le (List.dropWhile_suffix _).length_le

def param? (params : List Pair) (name : String) : Option Json :=
  (params.find? (·.key = name)).map (·.value)

variable {m : Type → Type} [Monad m]

/-- The text that takes the place of a piece. A token without a parameter is reported and stays. -/
def fillPiece (params : List Pair) (onMissing : String → m Unit) : Piece → m (List Char)
  | .text cs => pure cs
  | .token name =>
    match param? params (String.ofList name) with
    | some value => pure value.plainText.toList
    | none => do
      onMissing (String.ofList name)
      pure (':' :: name)

def fillPieces (params : List Pair) (onMissing : String → m Unit) : List Piece → m (List Char)
  | [] => pure []
  | piece :: rest => do
    let cs ← fillPiece params onMissing piece
    return cs ++ (← fillPieces params onMissing rest)

/-- Replaces each path token that has a parameter by the text of its value. The tokens are taken
from left to right, and what is put in is not searched for tokens. -/
def fill (endpoint : String) (params : List Pair) (onMissing : String → m Unit) : m String :=
  String.ofList <$> fillPieces params onMissing (pieces endpoint.toList)

end Endpoint

end FlowScript
