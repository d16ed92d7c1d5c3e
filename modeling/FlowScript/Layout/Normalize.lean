import FlowScript.Layout.Bracket

/-!
The layout of a script text. Lines are trimmed and indented by the brackets around them, blank lines
are collapsed, and none is left behind an opening line or in front of a closing one. The layout is
found first, as a list of entries with levels; the width of a level comes in only when they are
written.
-/

namespace FlowScript.Layout

/-- A line of the layout. The text of a line is trimmed and not empty. -/
inductive Entry where
  | blank
  | line (level : Nat) (text : List Char)
  deriving DecidableEq, Repr

structure Position where
  stack : List Open
  previous : Option (List Char)
  /-- Blank lines stand between the last line and the next. -/
  gap : Bool

def Position.start : Position := ⟨[], none, false⟩

def innerLevel : List Open → Nat
  | [] => 0
  | top :: _ => top.level + 1

def endsWithOpener (line : List Char) : Bool :=
  line.getLast?.any isOpener

def startsWithCloser (line : List Char) : Bool :=
  line.head?.any isCloser

/-- A gap is kept unless it stands behind an opening line or in front of a closing one. -/
def Position.keepsGap (pos : Position) (line : List Char) : Bool :=
  pos.gap && !startsWithCloser line && !pos.previous.any endsWithOpener

def Position.place (pos : Position) (line : List Char) : List Entry × Position :=
  let (level, stack) := closeLeading line (innerLevel pos.stack) pos.stack
  let gap := if pos.keepsGap line then [Entry.blank] else []
  (gap ++ [.line level line],
    ⟨scanBrackets level .outside stack (line.dropWhile isCloser), some line, false⟩)

def Position.entries : Position → List (List Char) → List Entry
  | _, [] => []
  | pos, raw :: rest =>
    match Text.trimChars raw with
    | [] => Position.entries { pos with gap := pos.previous.isSome } rest
    | line => (pos.place line).1 ++ (pos.place line).2.entries rest

def entries (text : List Char) : List Entry :=
  Position.start.entries (Text.splitLines text)

def Entry.text (width : Nat) : Entry → List Char
  | .blank => []
  | .line level text => List.replicate (level * width) ' ' ++ text

/-- The entries with a line feed between them and one at the end. -/
def write (width : Nat) (entries : List Entry) : List Char :=
  ['\n'].intercalate (entries.map (Entry.text width)) ++ ['\n']

def normalize (text : String) (width : Nat) : String :=
  String.ofList (write width (entries text.toList))

end FlowScript.Layout
