import FlowScript.Json.Cursor

/-!
Numerals of JSON texts. A numeral is either read, which gives a number or finds it out of range, or
skipped, which only checks its form.

A floating-point number is computed from at most 64 bits of its digits and from a power of ten, with
one rounding for each of the two steps, so it is not always the number nearest to the numeral.
-/

namespace FlowScript.Json

/-- Appends digits to a significand for as long as it stays below 2^64. The second part of the
result counts the digits left out. -/
def absorb : Nat → List Char → Nat × Nat
  | significand, [] => (significand, 0)
  | significand, d :: ds =>
    let next := significand * 10 + (d.toNat - '0'.toNat)
    if next < Nat.pow 2 64 then absorb next ds else (significand, ds.length + 1)

/-- An integer without fraction and exponent. Zero with a sign, and what is below -2^63, are
floating-point numbers. -/
def integer (negative : Bool) (significand : Nat) : Number :=
  if negative then
    if significand = 0 ∨ Nat.pow 2 63 < significand then .float (Binary64.ofNat significand).neg
    else .negative (-significand)
  else .natural significand

/-- Divides by ten as often as told, at most 308 times at once. Three such divisions make any
significand zero. -/
def divideByTens : Nat → Binary64 → Nat → Binary64
  | 0, x, _ => x
  | fuel + 1, x, n =>
    if n ≤ 308 then x.div (Binary64.powerOfTen n)
    else divideByTens fuel (x.div (Binary64.powerOfTen 308)) (n - 308)

def magnitude? (significand : Nat) (exponent : Int) : Option Binary64 :=
  let x := Binary64.ofNat significand
  if exponent < 0 then some (divideByTens 4 x exponent.natAbs)
  else if 308 < exponent then if x.isZero then some x else none
  else
    let y := x.mul (Binary64.powerOfTen exponent.natAbs)
    if y.isInfinite then none else some y

def ofParts (negative : Bool) (significand : Nat) (exponent : Int) (cur : Cursor) :
    Except Fault (Number × Cursor) :=
  match magnitude? significand exponent with
  | none => .error (cur.fault .numberOutOfRange)
  | some x => .ok (.float (if negative then x.neg else x), cur)

/-- The value of the digits of an exponent, or what follows the digit with which it passes 2^31. -/
def exponentValue : Nat → List Char → Except (List Char) Nat
  | value, [] => .ok value
  | value, d :: ds =>
    let next := value * 10 + (d.toNat - '0'.toNat)
    if next < Nat.pow 2 31 then exponentValue next ds else .error ds

def isExponentMark (c : Char) : Bool :=
  c == 'e' || c == 'E'

def skipSign (cur : Cursor) : Cursor :=
  if cur.peek? = some '+' ∨ cur.peek? = some '-' then cur.next else cur

/-- Reads on behind the exponent mark. An exponent that is too large makes zero of a zero, or if it
is negative; else the number is out of range as soon as that is seen. -/
def readExponent (negative : Bool) (significand : Nat) (start : Int) (cur : Cursor) :
    Except Fault (Number × Cursor) :=
  let down := cur.peek? = some '-'
  let cur := skipSign cur
  match cur.digits, cur.peek? with
  | (_, _), none => .error (cur.fault .eofInValue)
  | ([], _), some _ => .error (cur.peekFault .invalidNumber)
  | (ds, stop), some _ =>
    match exponentValue 0 ds with
    | .ok value => ofParts negative significand (if down then start - value else start + value) stop
    | .error unread =>
      if significand ≠ 0 ∧ ¬down then
        .error ⟨.numberOutOfRange, stop.offset - unread.length⟩
      else .ok (.float (if negative then (Binary64.ofNat 0).neg else Binary64.ofNat 0), stop)

def readFraction (negative : Bool) (significand : Nat) (start : Nat) (cur : Cursor) :
    Except Fault (Number × Cursor) :=
  match cur.digits with
  | ([], _) =>
    .error (cur.peekFault (if cur.rest.isEmpty then .eofInValue else .invalidNumber))
  | (ds, stop) =>
    let (significand, left) := absorb significand ds
    let exponent : Int := (start : Int) - (ds.length - left : Nat)
    if stop.peek?.any isExponentMark then readExponent negative significand exponent stop.next
    else ofParts negative significand exponent stop

def readNumeral (negative : Bool) (cur : Cursor) : Except Fault (Number × Cursor) :=
  match cur.digits, cur.peek? with
  | (_, _), none => .error (cur.fault .eofInValue)
  | ([], _), some _ => .error (cur.peekFault .invalidNumber)
  | (ds, stop), some c =>
    if c = '0' ∧ 1 < ds.length then .error (cur.next.peekFault .invalidNumber)
    else
      let (significand, left) := absorb 0 ds
      if stop.peek? = some '.' then readFraction negative significand left stop.next
      else if stop.peek?.any isExponentMark then readExponent negative significand left stop.next
      else if left = 0 then .ok (integer negative significand, stop)
      else ofParts negative significand left stop

def skipExponent (cur : Cursor) : Except Fault Cursor :=
  match (skipSign cur).digits with
  | ([], _) => .error ((skipSign cur).peekFault .invalidNumber)
  | (_, stop) => .ok stop

def skipFraction (cur : Cursor) : Except Fault Cursor :=
  match cur.digits with
  | ([], _) => .error (cur.peekFault .invalidNumber)
  | (_, stop) => if stop.peek?.any isExponentMark then skipExponent stop.next else .ok stop

/-- Skips a numeral behind its sign. A numeral that ends too early is invalid, even at the end of
the text. -/
def skipNumeral (cur : Cursor) : Except Fault Cursor :=
  match cur.digits, cur.peek? with
  | ([], _), _ => .error (cur.peekFault .invalidNumber)
  | (ds, stop), c =>
    if c = some '0' ∧ 1 < ds.length then .error (cur.next.peekFault .invalidNumber)
    else if stop.peek? = some '.' then skipFraction stop.next
    else if stop.peek?.any isExponentMark then skipExponent stop.next
    else .ok stop

end FlowScript.Json
