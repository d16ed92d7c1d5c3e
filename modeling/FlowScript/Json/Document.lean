import FlowScript.Json.Numeral
import FlowScript.Json.StringToken

/-!
JSON documents as trees with places. Reading a text never fails: what cannot be read ends the tree,
and the tree keeps the fault. Decoding is a function on trees, so that of all problems of a text, in
form or in type, the first from left to right is the one that a decoder meets first.

A value can be decoded or skipped, and the two find different faults in it. A part of a text that
neither can pass is broken and keeps both faults; a part that can be skipped but not read, such as a
number out of range, keeps the fault in place of its value.
-/

namespace FlowScript.Json

inductive Gap where
  | first
  | afterItem
  | afterComma
  deriving DecidableEq, Repr

inductive Ending where
  /-- The closing bracket, with the offset behind it. -/
  | closed (after : Nat)
  | stopped (gap : Gap) (offset : Nat) (next : Option Char)
  | brokenKey (read skipped : Fault)
  deriving Repr

/-- The key of a member, and the offset at which a problem with the key as such is placed: behind
the key and the space after it, and behind a closing bracket that follows there. -/
structure Key where
  name : Except Fault String
  after : Nat

/-- A value with the offset of its first byte, and that behind it where it has no parts. -/
inductive Doc where
  | null (start stop : Nat)
  | bool (start : Nat) (b : Bool) (stop : Nat)
  | number (start : Nat) (value : Except Fault Number) (stop : Nat)
  | string (start : Nat) (value : Except Fault String) (stop : Nat)
  | array (start : Nat) (items : List Doc) (ending : Ending)
  | object (start : Nat) (members : List (Key × Doc)) (ending : Ending)
  | broken (start : Nat) (read skipped : Fault)

namespace Doc

/-- The value and the place behind it, or no place where the reading stopped. -/
abbrev Step := Doc × Option Cursor

def start : Doc → Nat
  | .null start _ | .bool start _ _ | .number start _ _ | .string start _ _ | .array start _ _
  | .object start _ _ | .broken start _ _ => start

def fail (cur : Cursor) (fault : Fault) : Step :=
  (.broken cur.offset fault fault, none)

def readWord (cur : Cursor) (word : String) (value : Nat → Doc) : Step :=
  match cur.word word.toList with
  | .error fault => fail cur fault
  | .ok stop => (value stop.offset, some stop)

def readNumber (cur : Cursor) (negative : Bool) : Step :=
  let digits := if negative then cur.next else cur
  match readNumeral negative digits, skipNumeral digits with
  | value, .ok stop => (.number cur.offset (value.map Prod.fst) stop.offset, some stop)
  | .error fault, .error skipped => (.broken cur.offset fault skipped, none)
  | .ok _, .error skipped => fail cur skipped

def readText (cur : Cursor) : Step :=
  match readString cur.next, skipString cur.next with
  | value, .ok stop => (.string cur.offset (value.map Prod.fst) stop.offset, some stop)
  | .error fault, .error skipped => (.broken cur.offset fault skipped, none)
  | .ok _, .error skipped => fail cur skipped

def readColon (cur : Cursor) : Except Fault Cursor :=
  match cur.peek? with
  | some ':' => .ok cur.next
  | some _ => .error (cur.peekFault .expectedColon)
  | none => .error (cur.peekFault .eofInObject)

def readKey (cur : Cursor) : Except Ending (Key × Cursor) :=
  match readString cur.next, skipString cur.next with
  | value, .ok stop =>
    let stop := stop.skipSpace
    let after := stop.offset + if stop.peek? = some '\x7d' then 1 else 0
    .ok (⟨value.map Prod.fst, after⟩, stop)
  | .error fault, .error skipped => .error (.brokenKey fault skipped)
  | .ok _, .error skipped => .error (.brokenKey skipped skipped)

/-- The end of a container whose last value could not be passed; no decoder comes to it. -/
def unreached (cur : Cursor) : Ending :=
  .stopped .afterItem cur.offset none

mutual

/-- Reads a value at the first character that is no space. The fuel is a bound on the number of
values and separators that are still open; two for each character suffice. -/
def read : Nat → Cursor → Step
  | 0, cur => fail cur (cur.peekFault .eofInValue)
  | fuel + 1, cur =>
    let cur := cur.skipSpace
    match cur.peek? with
    | none => fail cur (cur.peekFault .eofInValue)
    | some 'n' => readWord cur "null" (.null cur.offset)
    | some 't' => readWord cur "true" (.bool cur.offset true)
    | some 'f' => readWord cur "false" (.bool cur.offset false)
    | some '-' => readNumber cur true
    | some '"' => readText cur
    | some '[' =>
      let (items, ending, stop) := readItems fuel .first cur.next
      (.array cur.offset items ending, stop)
    | some '\x7b' =>
      let (members, ending, stop) := readMembers fuel .first cur.next
      (.object cur.offset members ending, stop)
    | some c =>
      if c.isDigit then readNumber cur false else fail cur (cur.peekFault .expectedValue)

def readItems : Nat → Gap → Cursor → List Doc × Ending × Option Cursor
  | 0, gap, cur => ([], .stopped gap cur.offset none, none)
  | fuel + 1, gap, cur =>
    let cur := cur.skipSpace
    let stop : List Doc × Ending × Option Cursor :=
      ([], .stopped gap cur.offset cur.peek?, none)
    match gap, cur.peek? with
    | _, none => stop
    | .afterComma, some ']' => stop
    | _, some ']' => ([], .closed cur.next.offset, some cur.next)
    | .afterItem, some ',' => readItems fuel .afterComma cur.next
    | .afterItem, some _ => stop
    | _, some _ =>
      match read fuel cur with
      | (item, none) => ([item], unreached cur, none)
      | (item, some rest) =>
        let (items, ending, stop) := readItems fuel .afterItem rest
        (item :: items, ending, stop)

def readMembers : Nat → Gap → Cursor → List (Key × Doc) × Ending × Option Cursor
  | 0, gap, cur => ([], .stopped gap cur.offset none, none)
  | fuel + 1, gap, cur =>
    let cur := cur.skipSpace
    let stop : List (Key × Doc) × Ending × Option Cursor :=
      ([], .stopped gap cur.offset cur.peek?, none)
    match gap, cur.peek? with
    | .afterItem, some ',' => readMembers fuel .afterComma cur.next
    | .afterComma, some '\x7d' => stop
    | _, some '\x7d' => ([], .closed cur.next.offset, some cur.next)
    | .first, some '"' | .afterComma, some '"' =>
      match readKey cur with
      | .error ending => ([], ending, none)
      | .ok (key, rest) =>
        match readColon rest with
        | .error fault => ([(key, .broken rest.offset fault fault)], unreached cur, none)
        | .ok rest =>
          match read fuel rest with
          | (value, none) => ([(key, value)], unreached cur, none)
          | (value, some rest) =>
            let (members, ending, stop) := readMembers fuel .afterItem rest
            ((key, value) :: members, ending, stop)
    | _, _ => stop

end

def ofText (text : String) : Step :=
  let (doc, stop) := read (2 * text.length + 2) (Cursor.ofText text)
  (doc, stop.map Cursor.skipSpace)

end Doc

end FlowScript.Json
