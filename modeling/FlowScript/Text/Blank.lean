/-!
Blank characters, trimming and lines. A character is blank when it has the Unicode property
White_Space, which is wider than ASCII white space and leaves out the zero-width characters.
-/

namespace FlowScript.Text

/-- The code points with the property White_Space, as ascending closed ranges. -/
def blankRanges : List (Nat × Nat) :=
  [(0x9, 0xD), (0x20, 0x20), (0x85, 0x85), (0xA0, 0xA0), (0x1680, 0x1680), (0x2000, 0x200A),
    (0x2028, 0x2029), (0x202F, 0x202F), (0x205F, 0x205F), (0x3000, 0x3000)]

def isBlank (c : Char) : Bool :=
  blankRanges.any fun (low, high) => low ≤ c.toNat && c.toNat ≤ high

def dropTail (p : Char → Bool) : List Char → List Char
  | [] => []
  | c :: cs =>
    match dropTail p cs with
    | [] => if p c then [] else [c]
    | kept => c :: kept

def trimChars (cs : List Char) : List Char :=
  dropTail isBlank (cs.dropWhile isBlank)

def trim (s : String) : String :=
  String.ofList (trimChars s.toList)

def isBlankText (s : String) : Bool :=
  s.toList.all isBlank

def trimEnd (c : Char) (s : String) : String :=
  String.ofList (dropTail (· == c) s.toList)

/-- The pieces of a text that a character ends. The last piece need not be ended, and an end at the
very end of the text starts no other piece. -/
def splitAfter (stop : Char) : List Char → List (List Char)
  | [] => []
  | c :: cs =>
    if c = stop then [] :: splitAfter stop cs
    else
      match splitAfter stop cs with
      | [] => [[c]]
      | piece :: pieces => (c :: piece) :: pieces

def splitLines : List Char → List (List Char) :=
  splitAfter '\n'

end FlowScript.Text
