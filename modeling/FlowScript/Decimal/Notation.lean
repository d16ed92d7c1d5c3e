import FlowScript.Decimal.Shortest

/-!
Written forms of floating-point numbers: positional, as in `0.001`, and scientific, as in `1e-6`.
-/

namespace FlowScript.Decimal

def zeros (n : Nat) : List Char :=
  List.replicate n '0'

def positional (digits : List Char) (point : Int) : List Char :=
  if point ≤ 0 then '0' :: '.' :: zeros (-point).toNat ++ digits
  else if digits.length ≤ point.toNat then digits ++ zeros (point.toNat - digits.length)
  else digits.take point.toNat ++ '.' :: digits.drop point.toNat

def scientific (digits : List Char) (point : Int) : List Char :=
  let exponent := point - 1
  let fraction := if digits.length ≤ 1 then [] else '.' :: digits.drop 1
  digits.take 1 ++ fraction ++ ['e', if exponent < 0 then '-' else '+'] ++
    Nat.toDigits 10 exponent.natAbs

def signed (negative : Bool) (cs : List Char) : String :=
  String.ofList (if negative then '-' :: cs else cs)

end FlowScript.Decimal
