import FlowScript.Json.Document

/-!
Decoding of documents. A decoder takes a document to a value or to the first fault in it. It is told
how many levels of arrays and objects may still be opened, and the value that it skips is exempt
from that limit.
-/

namespace FlowScript.Json

/-- The number of levels that stay unopened. -/
abbrev Depth := Nat

/-- At most 127 arrays and objects may be open at once. -/
def Depth.full : Depth := 128

abbrev Decoder (α : Type) := Depth → Doc → Except Fault α

def Depth.enter (depth : Depth) (start : Nat) : Except Fault Depth :=
  if depth ≤ 1 then .error ⟨.recursionLimit, start + 1⟩ else .ok (depth - 1)

namespace Ending

/-- The offset behind a place where a character, if there is one, was only looked at. -/
def peeked (offset : Nat) (next : Option Char) : Nat :=
  offset + if next.isSome then 1 else 0

def ofArray : Ending → Except Fault Nat
  | .closed after => .ok after
  | .brokenKey read _ => .error read
  | .stopped gap offset next =>
    .error ⟨match gap, next with
      | .afterComma, some _ => .trailingComma
      | .afterComma, none => .eofInValue
      | _, some _ => .expectedListCommaOrEnd
      | _, none => .eofInList, peeked offset next⟩

/-- The offset behind the closing bracket of an array from which no more items are taken. -/
def ofFullArray : Ending → Except Fault Nat
  | .closed after => .ok after
  | .brokenKey read _ => .error read
  | .stopped gap offset next =>
    .error ⟨match gap, next with
      | .afterComma, some _ => .trailingComma
      | .afterComma, none => .trailingCharacters
      | _, some _ => .trailingCharacters
      | _, none => .eofInList, peeked offset next⟩

def ofObject : Ending → Except Fault Nat
  | .closed after => .ok after
  | .brokenKey read _ => .error read
  | .stopped gap offset next =>
    .error ⟨match gap, next with
      | .afterComma, none => .eofInValue
      | .afterComma, some '\x7d' => .trailingComma
      | .afterItem, some _ => .expectedObjectCommaOrEnd
      | _, some _ => .keyMustBeString
      | _, none => .eofInObject, peeked offset next⟩

def ofSkippedArray : Ending → Except Fault Unit
  | .closed _ => .ok ()
  | .brokenKey _ skipped => .error skipped
  | .stopped gap offset next =>
    .error ⟨match gap, next with
      | .afterComma, some _ => .expectedValue
      | .afterComma, none => .eofInValue
      | _, some _ => .expectedListCommaOrEnd
      | _, none => .eofInList, peeked offset next⟩

def ofSkippedObject : Ending → Except Fault Unit
  | .closed _ => .ok ()
  | .brokenKey _ skipped => .error skipped
  | .stopped gap offset next =>
    .error ⟨match gap, next with
      | .afterItem, some _ => .expectedObjectCommaOrEnd
      | _, some _ => .keyMustBeString
      | _, none => .eofInObject, peeked offset next⟩

end Ending

namespace Doc

mutual

def skip : Doc → Except Fault Unit
  | .null .. | .bool .. | .number .. | .string .. => .ok ()
  | .broken _ _ skipped => .error skipped
  | .array _ items ending => do
    skipItems items
    ending.ofSkippedArray
  | .object _ members ending => do
    skipMembers members
    ending.ofSkippedObject

def skipItems : List Doc → Except Fault Unit
  | [] => .ok ()
  | item :: rest => do
    item.skip
    skipItems rest

def skipMembers : List (Key × Doc) → Except Fault Unit
  | [] => .ok ()
  | (_, value) :: rest => do
    value.skip
    skipMembers rest

end

mutual

def toJson (depth : Depth) : Doc → Except Fault Json
  | .null .. => .ok .null
  | .bool _ b _ => .ok (.bool b)
  | .number _ value _ => value.map .number
  | .string _ value _ => value.map .string
  | .broken _ read _ => .error read
  | .array start items ending => do
    let items ← itemsToJson (← depth.enter start) items
    let _ ← ending.ofArray
    return .array items
  | .object start members ending => do
    let members ← membersToJson (← depth.enter start) members
    let _ ← ending.ofObject
    return .object (ofMembers members)

def itemsToJson (depth : Depth) : List Doc → Except Fault (List Json)
  | [] => .ok []
  | item :: rest => do
    let item ← item.toJson depth
    return item :: (← itemsToJson depth rest)

def membersToJson (depth : Depth) : List (Key × Doc) → Except Fault (List (String × Json))
  | [] => .ok []
  | (key, value) :: rest => do
    let name ← key.name
    let value ← value.toJson depth
    return (name, value) :: (← membersToJson depth rest)

end

/-- The fault of a document that has not the expected type. It is placed behind a scalar and in
front of an array or object. -/
def mismatch (expected : String) : Doc → Fault
  | .null _ stop => ⟨.invalidType .null expected, stop⟩
  | .bool _ b stop => ⟨.invalidType (.bool b) expected, stop⟩
  | .number _ (.ok n) stop => ⟨.invalidType (.number n) expected, stop⟩
  | .string _ (.ok s) stop => ⟨.invalidType (.string s) expected, stop⟩
  | .array start _ _ => ⟨.invalidType .sequence expected, start⟩
  | .object start _ _ => ⟨.invalidType .map expected, start⟩
  | .number _ (.error fault) _ | .string _ (.error fault) _ | .broken _ fault _ => fault

end Doc

namespace Decoder

def json : Decoder Json :=
  Doc.toJson

def string : Decoder String
  | _, .string _ (.ok s) _ => .ok s
  | _, doc => .error (doc.mismatch "a string")

def natural : Decoder Nat
  | _, .number _ (.ok (.natural n)) _ => .ok n
  | _, .number _ (.ok (.negative n)) stop =>
    .error ⟨.invalidValue (.number (.negative n)) "u64", stop⟩
  | _, doc => .error (doc.mismatch "u64")

def float : Decoder Binary64
  | _, .number _ (.ok (.natural n)) _ => .ok (Binary64.ofNat n)
  | _, .number _ (.ok (.negative n)) _ => .ok (Binary64.ofNat n.natAbs).neg
  | _, .number _ (.ok (.float x)) _ => .ok x
  | _, doc => .error (doc.mismatch "f64")

def optional {α : Type} (decode : Decoder α) : Decoder (Option α)
  | _, .null .. => .ok none
  | depth, doc => some <$> decode depth doc

def decodeItems {α : Type} (decode : Decoder α) (depth : Depth) :
    List Doc → Except Fault (List α)
  | [] => .ok []
  | item :: rest => do
    let item ← decode depth item
    return item :: (← decodeItems decode depth rest)

def list {α : Type} (decode : Decoder α) : Decoder (List α)
  | depth, .array start items ending => do
    let items ← decodeItems decode (← depth.enter start) items
    let _ ← ending.ofArray
    return items
  | _, doc => .error (doc.mismatch "a sequence")

def members : Decoder (List (String × Json))
  | depth, .object start members ending => do
    let members ← Doc.membersToJson (← depth.enter start) members
    let _ ← ending.ofObject
    return ofMembers members
  | _, doc => .error (doc.mismatch "a map")

end Decoder

end FlowScript.Json
