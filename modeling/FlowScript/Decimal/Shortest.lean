import FlowScript.Decimal.Binary

/-!
The shortest decimal of a floating-point number: the fewest digits that read back as the number, and
of those the decimal nearest to it. The decimals that read back lie in the interval of reals that
round to the number, ends included when the mantissa is even.
-/

namespace FlowScript.Decimal

structure Scaled where
  coefficient : Nat
  exponent : Int
  deriving DecidableEq, Repr

inductive Tie where
  | toEven
  | up
  deriving DecidableEq, Repr

def twoPow (e : Int) : Nat × Nat :=
  (Nat.pow 2 e.toNat, Nat.pow 2 (-e).toNat)

def tenPow (e : Int) : Nat × Nat :=
  (Nat.pow 10 e.toNat, Nat.pow 10 (-e).toNat)

def leadingZeros : Nat → Nat → Nat → Nat
  | 0, _, _ => 0
  | fuel + 1, num, den => if num * 10 < den then leadingZeros fuel (num * 10) den + 1 else 0

/-- The place of the point: the `k` for which `num / den` is from `10 ^ (k - 1)` up to `10 ^ k`. No
number of the format has more than 323 zeros behind the point. -/
def pointPlace (num den : Nat) : Int :=
  if den ≤ num then (Nat.toDigits 10 (num / den)).length
  else -(leadingZeros 400 num den : Int)

/-- A number in quarters of its last place, with the ends of its rounding interval. -/
structure Interval where
  low : Nat
  middle : Nat
  high : Nat
  closed : Bool
  exponent : Int

def Interval.of (mantissa : Nat) (exponent : Int) : Interval where
  low := if mantissa = Nat.pow 2 52 ∧ exponent ≠ -1074 then 4 * mantissa - 1 else 4 * mantissa - 2
  middle := 4 * mantissa
  high := 4 * mantissa + 2
  closed := mantissa % 2 = 0
  exponent := exponent - 2

def Interval.holds (i : Interval) (q : Nat) (grid : Int) : Bool :=
  let (a, b) := tenPow grid
  let (c, d) := twoPow i.exponent
  let value := q * a * d
  let low := i.low * c * b
  let high := i.high * c * b
  if i.closed then low ≤ value && value ≤ high else low < value && value < high

/-- `q + 1` is taken for `q + r / den`, rather than `q`. -/
def Tie.takesUpper (tie : Tie) (q r den : Nat) : Bool :=
  den < 2 * r || (2 * r == den && (tie == .up || q % 2 == 1))

def Interval.onGrid (i : Interval) (tie : Tie) (grid : Int) : Option Nat :=
  let (a, b) := tenPow grid
  let (c, d) := twoPow i.exponent
  let num := i.middle * c * b
  let den := a * d
  let q := num / den
  match i.holds q grid, i.holds (q + 1) grid with
  | true, true => some (if tie.takesUpper q (num % den) den then q + 1 else q)
  | true, false => some q
  | false, true => some (q + 1)
  | false, false => none

def Interval.search (i : Interval) (tie : Tie) (place : Int) : Nat → Nat → Scaled
  | _, 0 => ⟨i.middle, 0⟩
  | digits, fuel + 1 =>
    match i.onGrid tie (place - digits) with
    | some q => ⟨q, place - digits⟩
    | none => i.search tie place (digits + 1) fuel

/-- The shortest decimal of `mantissa * 2 ^ exponent`, for a mantissa that is not zero. Seventeen
digits always suffice. -/
def shortest (tie : Tie) (mantissa : Nat) (exponent : Int) : Scaled :=
  let i := Interval.of mantissa exponent
  let (c, d) := twoPow exponent
  i.search tie (pointPlace (mantissa * c) d) 1 17

def Scaled.digits (x : Scaled) : List Char :=
  ((Nat.toDigits 10 x.coefficient).reverse.dropWhile (· == '0')).reverse

def Scaled.point (x : Scaled) : Int :=
  (Nat.toDigits 10 x.coefficient).length + x.exponent

end FlowScript.Decimal
