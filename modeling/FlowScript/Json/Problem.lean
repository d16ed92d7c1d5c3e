import FlowScript.Json.Printer
import FlowScript.Text.Quoted

/-!
What can be wrong with a JSON text, and where. A place is given by the number of bytes that were
read when the problem was met; it is shown as a line and a column.
-/

namespace FlowScript.Json

inductive Found where
  | null
  | bool (b : Bool)
  | number (n : Number)
  | string (s : String)
  | sequence
  | map
  deriving Repr

def Found.text : Found → String
  | .null => "null"
  | .bool b => "boolean \x60" ++ toString b ++ "\x60"
  | .number (.float x) => "floating point \x60" ++ floatText x ++ "\x60"
  | .number n => "integer \x60" ++ n.text ++ "\x60"
  | .string s => "string " ++ Text.quoted s
  | .sequence => "sequence"
  | .map => "map"

inductive Problem where
  | eofInValue
  | eofInList
  | eofInObject
  | eofInString
  | expectedValue
  | expectedIdent
  | expectedColon
  | expectedListCommaOrEnd
  | expectedObjectCommaOrEnd
  | keyMustBeString
  | trailingComma
  | trailingCharacters
  | invalidNumber
  | numberOutOfRange
  | invalidEscape
  | loneSurrogate
  | unexpectedEndOfHexEscape
  | controlCharacter
  | recursionLimit
  | invalidType (found : Found) (expected : String)
  | invalidValue (found : Found) (expected : String)
  | invalidLength (length : Nat) (expected : String)
  | missingField (name : String)
  | duplicateField (name : String)
  deriving Repr

def Problem.text : Problem → String
  | .eofInValue => "EOF while parsing a value"
  | .eofInList => "EOF while parsing a list"
  | .eofInObject => "EOF while parsing an object"
  | .eofInString => "EOF while parsing a string"
  | .expectedValue => "expected value"
  | .expectedIdent => "expected ident"
  | .expectedColon => "expected \x60:\x60"
  | .expectedListCommaOrEnd => "expected \x60,\x60 or \x60]\x60"
  | .expectedObjectCommaOrEnd => "expected \x60,\x60 or \x60\x7d\x60"
  | .keyMustBeString => "key must be a string"
  | .trailingComma => "trailing comma"
  | .trailingCharacters => "trailing characters"
  | .invalidNumber => "invalid number"
  | .numberOutOfRange => "number out of range"
  | .invalidEscape => "invalid escape"
  | .loneSurrogate => "lone leading surrogate in hex escape"
  | .unexpectedEndOfHexEscape => "unexpected end of hex escape"
  | .controlCharacter => "control character (\\u0000-\\u001F) found while parsing a string"
  | .recursionLimit => "recursion limit exceeded"
  | .invalidType found expected => "invalid type: " ++ found.text ++ ", expected " ++ expected
  | .invalidValue found expected => "invalid value: " ++ found.text ++ ", expected " ++ expected
  | .invalidLength length expected =>
    "invalid length " ++ toString length ++ ", expected " ++ expected
  | .missingField name => "missing field \x60" ++ name ++ "\x60"
  | .duplicateField name => "duplicate field \x60" ++ name ++ "\x60"

structure Fault where
  problem : Problem
  offset : Nat
  deriving Repr

/-- The line and the column reached after the given number of bytes. Lines count from one; the
column is the number of bytes since the last line feed. -/
def position : Nat → Nat × Nat → List Char → Nat × Nat
  | 0, pos, _ => pos
  | _, pos, [] => pos
  | offset + 1, (line, column), c :: cs =>
    if c = '\n' then position offset (line + 1, 0) cs
    else
      position (offset + 1 - c.utf8Size) (line, column + min c.utf8Size (offset + 1)) cs
termination_by _ _ cs => cs.length

def Fault.message (text : String) (fault : Fault) : String :=
  let (line, column) := position fault.offset (1, 0) text.toList
  fault.problem.text ++ " at line " ++ toString line ++ " column " ++ toString column

end FlowScript.Json
