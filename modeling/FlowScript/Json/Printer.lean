import FlowScript.Decimal.Notation
import FlowScript.Json.Value

/-!
JSON texts of values: compact, without any blanks, and pretty, with one item on a line and two
blanks for each level.
-/

namespace FlowScript

namespace Json

/-- Floating-point numbers are written with the fewest digits, a half going to the even digit. The
form is positional from 10^-5 up to 10^16, always with a digit behind the point. -/
def floatText (x : Binary64) : String :=
  match x.read with
  | .finite negative 0 _ => Decimal.signed negative ['0', '.', '0']
  | .finite negative mantissa exponent =>
    let decimal := Decimal.shortest .toEven mantissa exponent
    let digits := decimal.digits
    let point := decimal.point
    Decimal.signed negative <|
      if -4 ≤ point ∧ point ≤ 16 then
        let text := Decimal.positional digits point
        if text.contains '.' then text else text ++ ['.', '0']
      else Decimal.scientific digits point
  | .infinite _ | .nan => "null"

def Number.text : Number → String
  | .natural n => toString n
  | .negative n => toString n
  | .float x => floatText x

def escapedChar (c : Char) : List Char :=
  if c = '"' then ['\\', '"']
  else if c = '\\' then ['\\', '\\']
  else if c = '\x08' then ['\\', 'b']
  else if c = '\x0c' then ['\\', 'f']
  else if c = '\n' then ['\\', 'n']
  else if c = '\r' then ['\\', 'r']
  else if c = '\t' then ['\\', 't']
  else if c.toNat < 0x20 then
    ['\\', 'u', '0', '0', Nat.digitChar (c.toNat / 16), Nat.digitChar (c.toNat % 16)]
  else [c]

def stringText (s : String) : String :=
  String.ofList ('"' :: s.toList.flatMap escapedChar ++ ['"'])

mutual

def compact : Json → String
  | .null => "null"
  | .bool b => if b then "true" else "false"
  | .number n => n.text
  | .string s => stringText s
  | .array items => "[" ++ ",".intercalate (compactItems items) ++ "]"
  | .object members => "\x7b" ++ ",".intercalate (compactMembers members) ++ "\x7d"

def compactItems : List Json → List String
  | [] => []
  | item :: rest => compact item :: compactItems rest

def compactMembers : List (String × Json) → List String
  | [] => []
  | (key, value) :: rest => (stringText key ++ ":" ++ compact value) :: compactMembers rest

end

def lineBreak (level : Nat) : String :=
  "\n" ++ String.ofList (List.replicate (2 * level) ' ')

/-- The lines of a container between its brackets; an empty container is its brackets alone. -/
def block (opener closer : String) (level : Nat) : List String → String
  | [] => opener ++ closer
  | items =>
    opener ++ lineBreak (level + 1) ++ ("," ++ lineBreak (level + 1)).intercalate items ++
      lineBreak level ++ closer

mutual

def prettyAt (level : Nat) : Json → String
  | .null => "null"
  | .bool b => if b then "true" else "false"
  | .number n => n.text
  | .string s => stringText s
  | .array items => block "[" "]" level (prettyItems (level + 1) items)
  | .object members => block "\x7b" "\x7d" level (prettyMembers (level + 1) members)

def prettyItems (level : Nat) : List Json → List String
  | [] => []
  | item :: rest => prettyAt level item :: prettyItems level rest

def prettyMembers (level : Nat) : List (String × Json) → List String
  | [] => []
  | (key, value) :: rest =>
    (stringText key ++ ": " ++ prettyAt level value) :: prettyMembers level rest

end

def pretty (value : Json) : String :=
  prettyAt 0 value

end Json

end FlowScript
