import FlowScript.Json.Cursor

/-!
Strings of JSON texts. A string is either read, which gives its text, or skipped, which checks the
form of its escapes but not that surrogates come in pairs.
-/

namespace FlowScript.Json

def simpleEscape? : Char → Option Char
  | '"' => some '"'
  | '\\' => some '\\'
  | '/' => some '/'
  | 'b' => some '\x08'
  | 'f' => some '\x0c'
  | 'n' => some '\n'
  | 'r' => some '\r'
  | 't' => some '\t'
  | _ => none

def hexValue? (c : Char) : Option Nat :=
  if c.isDigit then some (c.toNat - '0'.toNat)
  else if 'a' ≤ c ∧ c ≤ 'f' then some (c.toNat - 'a'.toNat + 10)
  else if 'A' ≤ c ∧ c ≤ 'F' then some (c.toNat - 'A'.toNat + 10)
  else none

def hexValues? (a b c d : Char) : Option Nat := do
  let a ← hexValue? a
  let b ← hexValue? b
  let c ← hexValue? c
  let d ← hexValue? d
  return ((a * 16 + b) * 16 + c) * 16 + d

/-- The fault of four bytes behind `\u` that are no hexadecimal digits, or of fewer bytes, which end
the text. -/
def hexFault (cur : Cursor) : Fault :=
  let left := (String.ofList (cur.rest.take 4)).utf8ByteSize
  if left < 4 then ⟨.eofInString, cur.offset + left⟩ else ⟨.invalidEscape, cur.offset + 4⟩

def isLeadingSurrogate (n : Nat) : Bool :=
  0xD800 ≤ n && n ≤ 0xDBFF

def isTrailingSurrogate (n : Nat) : Bool :=
  0xDC00 ≤ n && n ≤ 0xDFFF

def surrogatePair (leading trailing : Nat) : Char :=
  Char.ofNat (0x10000 + (leading - 0xD800) * 0x400 + (trailing - 0xDC00))

/-- Reads a string behind its opening quote. The characters so far are kept in reverse, and a
leading surrogate is kept until the trailing one has been read. -/
def readChars (offset : Nat) (leading : Option Nat) (acc : List Char) :
    List Char → Except Fault (String × Cursor)
  | [] => .error ⟨.eofInString, offset⟩
  | '\\' :: 'u' :: a :: b :: c :: d :: rest =>
    match hexValues? a b c d, leading with
    | none, _ => .error (hexFault ⟨offset + 2, [a, b, c, d]⟩)
    | some n, some m =>
      if isTrailingSurrogate n then readChars (offset + 6) none (surrogatePair m n :: acc) rest
      else .error ⟨.loneSurrogate, offset + 6⟩
    | some n, none =>
      if isTrailingSurrogate n then .error ⟨.loneSurrogate, offset + 6⟩
      else if isLeadingSurrogate n then readChars (offset + 6) (some n) acc rest
      else readChars (offset + 6) none (Char.ofNat n :: acc) rest
  | '\\' :: 'u' :: rest => .error (hexFault ⟨offset + 2, rest⟩)
  | '\\' :: c :: rest =>
    match leading, simpleEscape? c with
    | some _, _ => .error ⟨.unexpectedEndOfHexEscape, offset + 2⟩
    | none, some e => readChars (offset + 2) none (e :: acc) rest
    | none, none => .error ⟨.invalidEscape, offset + 2⟩
  | '\\' :: [] => .error ⟨.eofInString, offset + 1⟩
  | c :: rest =>
    if leading.isSome then .error ⟨.unexpectedEndOfHexEscape, offset + 1⟩
    else if c = '"' then .ok (String.ofList acc.reverse, ⟨offset + 1, rest⟩)
    else if c.toNat < 0x20 then .error ⟨.controlCharacter, offset + 1⟩
    else readChars (offset + c.utf8Size) none (c :: acc) rest

def readString (cur : Cursor) : Except Fault (String × Cursor) :=
  readChars cur.offset none [] cur.rest

def skipChars (offset : Nat) : List Char → Except Fault Cursor
  | [] => .error ⟨.eofInString, offset⟩
  | '\\' :: 'u' :: a :: b :: c :: d :: rest =>
    match hexValues? a b c d with
    | none => .error (hexFault ⟨offset + 2, [a, b, c, d]⟩)
    | some _ => skipChars (offset + 6) rest
  | '\\' :: 'u' :: rest => .error (hexFault ⟨offset + 2, rest⟩)
  | '\\' :: c :: rest =>
    match simpleEscape? c with
    | some _ => skipChars (offset + 2) rest
    | none => .error ⟨.invalidEscape, offset + 2⟩
  | '\\' :: [] => .error ⟨.eofInString, offset + 1⟩
  | c :: rest =>
    if c = '"' then .ok ⟨offset + 1, rest⟩
    else if c.toNat < 0x20 then .error ⟨.controlCharacter, offset⟩
    else skipChars (offset + c.utf8Size) rest

def skipString (cur : Cursor) : Except Fault Cursor :=
  skipChars cur.offset cur.rest

end FlowScript.Json
