import FlowScript.Json.Problem

/-!
A place in a JSON text: the number of bytes before it and the characters after it. A problem with a
character that was only looked at is placed behind the first byte of that character; a problem met
while reading is placed where the reading stands.
-/

namespace FlowScript.Json

structure Cursor where
  offset : Nat
  rest : List Char

namespace Cursor

def ofText (text : String) : Cursor :=
  ⟨0, text.toList⟩

def peek? (cur : Cursor) : Option Char :=
  cur.rest.head?

def next (cur : Cursor) : Cursor :=
  match cur.rest with
  | [] => cur
  | c :: cs => ⟨cur.offset + c.utf8Size, cs⟩

/-- Moves behind the longest run of characters that satisfy `p`, for a `p` that holds of
characters of one byte only. -/
def skipWhile (cur : Cursor) (p : Char → Bool) : Cursor :=
  ⟨cur.offset + (cur.rest.takeWhile p).length, cur.rest.dropWhile p⟩

def isSpace (c : Char) : Bool :=
  c == ' ' || c == '\n' || c == '\t' || c == '\r'

def skipSpace (cur : Cursor) : Cursor :=
  cur.skipWhile isSpace

def digits (cur : Cursor) : List Char × Cursor :=
  (cur.rest.takeWhile Char.isDigit, cur.skipWhile Char.isDigit)

def fault (cur : Cursor) (problem : Problem) : Fault :=
  ⟨problem, cur.offset⟩

def peekFault (cur : Cursor) (problem : Problem) : Fault :=
  ⟨problem, cur.offset + if cur.rest.isEmpty then 0 else 1⟩

def word (cur : Cursor) : List Char → Except Fault Cursor
  | [] => .ok cur
  | e :: es =>
    match cur.peek? with
    | none => .error (cur.fault .eofInValue)
    | some c => if c = e then cur.next.word es else .error (cur.peekFault .expectedIdent)

end Cursor

end FlowScript.Json
