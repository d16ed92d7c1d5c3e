import FlowScript.Text.Identifier

/-!
The lexical grammar of placeholders. A text is read as a sequence of tokens: plain text, a variable
written `$name` or `${name}`, an escaped dollar sign `$$`, which is text again, and a dollar sign
that starts nothing. Each token takes the longest spelling that the grammar allows.
-/

namespace FlowScript.Template

open Text

inductive Token where
  | text (s : String)
  | var (name : String)
  | bare
  deriving DecidableEq, Repr

/-- The token that a dollar sign starts, given what follows the sign, and what follows the token. -/
def Token.afterDollar : List Char → Token × List Char
  | '$' :: cs => (.text "$", cs)
  | '\x7b' :: cs =>
    match leadingIdent cs, afterIdent cs with
    | c :: name, '\x7d' :: rest => (.var (String.ofList (c :: name)), rest)
    | _, _ => (.bare, '\x7b' :: cs)
  | cs =>
    match leadingIdent cs with
    | [] => (.bare, cs)
    | name => (.var (String.ofList name), afterIdent cs)

theorem Token.length_afterDollar_le (cs : List Char) :
    (Token.afterDollar cs).2.length ≤ cs.length := by
  fun_cases Token.afterDollar cs with
  | case1 cs => simp
  | case2 cs c name rest hrest _ =>
    have h := length_afterIdent_le cs
    rw [hrest] at h
    simp only [List.length_cons] at h ⊢
    omega
  | case3 cs => simp
  | case4 cs => simp
  | case5 cs => exact length_afterIdent_le cs

def Token.scanChars : List Char → List Token
  | [] => []
  | c :: cs =>
    if c = '$' then
      (Token.afterDollar cs).1 :: scanChars (Token.afterDollar cs).2
    else
      .text (String.ofList (c :: cs.takeWhile (· != '$'))) :: scanChars (cs.dropWhile (· != '$'))
termination_by cs => cs.length
decreasing_by
  · exact Nat.lt_succ_of_le (Token.length_afterDollar_le cs)
  · exact Nat.lt_succ_of_le (List.dropWhile_suffix _).length_le

def scan (s : String) : List Token :=
  Token.scanChars s.toList

end FlowScript.Template
