/-!
Binary floating-point numbers of 64 bits as data: their fields, and rounding of a fraction to the
nearest such number. All arithmetic is done on natural numbers and rounded once at the end, which
is what the operations of the format mean.
-/

namespace FlowScript

structure Binary64 where
  bits : UInt64
  deriving DecidableEq, Repr

namespace Binary64

/-- What the bits stand for. A finite number is `mantissa * 2 ^ exponent`, with a sign. -/
inductive Reading where
  | nan
  | infinite (negative : Bool)
  | finite (negative : Bool) (mantissa : Nat) (exponent : Int)
  deriving DecidableEq, Repr

def isNegative (x : Binary64) : Bool :=
  x.bits.toNat / Nat.pow 2 63 == 1

def read (x : Binary64) : Reading :=
  let field : Nat := x.bits.toNat / Nat.pow 2 52 % Nat.pow 2 11
  let fraction : Nat := x.bits.toNat % Nat.pow 2 52
  if field = 2047 then
    if fraction = 0 then .infinite x.isNegative else .nan
  else if field = 0 then .finite x.isNegative fraction (-1074)
  else .finite x.isNegative (Nat.pow 2 52 + fraction) ((field : Int) - 1075)

def infinityBits : Nat :=
  2047 * Nat.pow 2 52

def ofMagnitude (magnitude : Nat) (negative : Bool) : Binary64 :=
  ⟨UInt64.ofNat (min magnitude infinityBits + if negative then Nat.pow 2 63 else 0)⟩

/-- The numerator and denominator of `num / den * 2 ^ (-e)`. -/
def scale (num den : Nat) (e : Int) : Nat × Nat :=
  (num * Nat.pow 2 (-e).toNat, den * Nat.pow 2 e.toNat)

/-- The exponent at which the integer part of `num / den` in units of `2 ^ exponent` has 53 binary
digits, but never less than the least exponent of the format. -/
def unitExponent (num den : Nat) : Int :=
  let e : Int := (num.log2 : Int) - den.log2 - 52
  let (p, q) := scale num den e
  max (-1074) (if p / q < Nat.pow 2 52 then e - 1 else e)

/-- The integer nearest to `num / den`, of two equally near ones the even one. -/
def roundHalfEven (num den : Nat) : Nat :=
  let q := num / den
  let r := num % den
  if 2 * r < den then q
  else if den < 2 * r then q + 1
  else q + q % 2

/-- The number nearest to `num / den`, or infinity when it is too large for the format. Rounding up
to the next power of two carries into the exponent field by itself. -/
def ofRatio (num den : Nat) (negative : Bool) : Binary64 :=
  if num = 0 then ofMagnitude 0 negative
  else
    let e := unitExponent num den
    let (p, q) := scale num den e
    ofMagnitude ((e + 1074).toNat * Nat.pow 2 52 + roundHalfEven p q) negative

def ofNat (n : Nat) : Binary64 :=
  ofRatio n 1 false

def powerOfTen (n : Nat) : Binary64 :=
  ofNat (Nat.pow 10 n)

def neg (x : Binary64) : Binary64 :=
  ⟨x.bits ^^^ 0x8000000000000000⟩

def isZero (x : Binary64) : Bool :=
  match x.read with
  | .finite _ 0 _ => true
  | _ => false

def isInfinite (x : Binary64) : Bool :=
  match x.read with
  | .infinite _ => true
  | _ => false

/-- A non-negative finite number as a fraction. All other numbers count as zero. -/
def toRatio (x : Binary64) : Nat × Nat :=
  match x.read with
  | .finite false m e => (m * Nat.pow 2 e.toNat, Nat.pow 2 (-e).toNat)
  | _ => (0, 1)

def mul (x y : Binary64) : Binary64 :=
  ofRatio (x.toRatio.1 * y.toRatio.1) (x.toRatio.2 * y.toRatio.2) false

def div (x y : Binary64) : Binary64 :=
  ofRatio (x.toRatio.1 * y.toRatio.2) (x.toRatio.2 * y.toRatio.1) false

end Binary64

end FlowScript
