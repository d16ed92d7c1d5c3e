import FlowScript.Json.Printer

/-!
The plain texts of values in a script: JSON values in URLs, headers and bodies, and numbers of
seconds.
-/

namespace FlowScript

/-- A string stands for its own text and null for no text; all else is written as JSON. -/
def Json.plainText : Json → String
  | .string s => s
  | .null => ""
  | value => value.compact

namespace Json

@[simp] theorem plainText_string (s : String) : (Json.string s).plainText = s := rfl

@[simp] theorem plainText_null : Json.null.plainText = "" := rfl

theorem plainText_eq_compact {value : Json} (hstring : ∀ s, value ≠ .string s)
    (hnull : value ≠ .null) : value.plainText = value.compact := by
  cases value with
  | string s => exact absurd rfl (hstring s)
  | null => exact absurd rfl hnull
  | _ => rfl

end Json

def integerPart (mantissa : Nat) (exponent : Int) : Nat :=
  mantissa * Nat.pow 2 exponent.toNat / Nat.pow 2 (-exponent).toNat

/-- A whole number has no fraction. It is clamped to the range of 64-bit integers. -/
def wholeSecondsText (negative : Bool) (n : Nat) : String :=
  if negative then toString (-(min n (Nat.pow 2 63) : Nat) : Int)
  else toString (min n (Nat.pow 2 63 - 1))

/-- Seconds are written without an exponent, with the fewest digits; a half goes up. -/
def secondsText (seconds : Binary64) : String :=
  match seconds.read with
  | .nan => "NaN"
  | .infinite negative => Decimal.signed negative "inf".toList
  | .finite negative mantissa exponent =>
    if mantissa % Nat.pow 2 (-exponent).toNat = 0 then
      wholeSecondsText negative (integerPart mantissa exponent)
    else
      let decimal := Decimal.shortest .up mantissa exponent
      Decimal.signed negative (Decimal.positional decimal.digits decimal.point)

end FlowScript
