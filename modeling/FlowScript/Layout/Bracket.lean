import FlowScript.Text.Blank

/-!
Brackets of a script text and the stack of those that are open. Brackets inside quotes do not count,
and a closing bracket that does not match the innermost open one is passed over.
-/

namespace FlowScript.Layout

inductive Bracket where
  | brace
  | paren
  | square
  deriving DecidableEq, Repr

def Bracket.opening? : Char → Option Bracket
  | '\x7b' => some .brace
  | '(' => some .paren
  | '[' => some .square
  | _ => none

def Bracket.closing? : Char → Option Bracket
  | '\x7d' => some .brace
  | ')' => some .paren
  | ']' => some .square
  | _ => none

def isCloser (c : Char) : Bool :=
  (Bracket.closing? c).isSome

def isOpener (c : Char) : Bool :=
  (Bracket.opening? c).isSome

def isQuote (c : Char) : Bool :=
  c == '\'' || c == '"' || c == '\x60'

/-- An open bracket and the level of the line that opened it. -/
structure Open where
  bracket : Bracket
  level : Nat
  deriving DecidableEq, Repr

def close? (shape : Bracket) : List Open → Option (Open × List Open)
  | [] => none
  | top :: rest => if top.bracket = shape then some (top, rest) else none

def stackAfter (level : Nat) (stack : List Open) (c : Char) : List Open :=
  match Bracket.opening? c, Bracket.closing? c with
  | some shape, _ => ⟨shape, level⟩ :: stack
  | none, some shape => ((close? shape stack).map Prod.snd).getD stack
  | none, none => stack

inductive QuoteState where
  | outside
  | inside (quote : Char)
  | escaped (quote : Char)
  deriving DecidableEq, Repr

def QuoteState.next : QuoteState → Char → QuoteState
  | .outside, c => if isQuote c then .inside c else .outside
  | .inside quote, c =>
    if c = '\\' then .escaped quote else if c = quote then .outside else .inside quote
  | .escaped quote, _ => .inside quote

def scanBrackets (level : Nat) : QuoteState → List Open → List Char → List Open
  | _, stack, [] => stack
  | .outside, stack, c :: cs =>
    scanBrackets level (QuoteState.outside.next c) (stackAfter level stack c) cs
  | quoted, stack, c :: cs => scanBrackets level (quoted.next c) stack cs

/-- Closes the brackets that a line starts with. The level becomes that of the bracket closed last;
a closer without its bracket changes nothing. -/
def closeLeading : List Char → Nat → List Open → Nat × List Open
  | [], level, stack => (level, stack)
  | c :: cs, level, stack =>
    match Bracket.closing? c with
    | none => (level, stack)
    | some shape =>
      match close? shape stack with
      | some (top, rest) => closeLeading cs top.level rest
      | none => closeLeading cs level stack

end FlowScript.Layout
