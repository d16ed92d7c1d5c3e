import FlowScript.Decimal.Binary

/-!
JSON values. An object is a list of members in the order of their first appearance.
-/

namespace FlowScript

namespace Json

/-- A number as it was written: a natural number below 2^64, a negative integer from -2^63, or a
binary floating-point number. -/
inductive Number where
  | natural (n : Nat)
  | negative (n : Int)
  | float (x : Binary64)
  deriving DecidableEq, Repr

end Json

inductive Json where
  | null
  | bool (b : Bool)
  | number (n : Json.Number)
  | string (s : String)
  | array (items : List Json)
  | object (members : List (String × Json))
  deriving Repr

namespace Json

/-- Sets a member: a new key goes to the end, a key that is there keeps its place. -/
def insert (key : String) (value : Json) :
    List (String × Json) → List (String × Json)
  | [] => [(key, value)]
  | (k, v) :: rest => if k = key then (key, value) :: rest else (k, v) :: insert key value rest

/-- The members that are left when each repeated key keeps its first place and its last value. -/
def ofMembers (members : List (String × Json)) : List (String × Json) :=
  members.foldl (fun acc (key, value) => insert key value acc) []

end Json

end FlowScript
