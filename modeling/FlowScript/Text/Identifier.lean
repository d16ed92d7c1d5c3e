/-!
Identifiers: an ASCII letter or an underscore, followed by ASCII letters, digits and underscores.
-/

namespace FlowScript.Text

def isIdentStart (c : Char) : Bool :=
  c.isAlpha || c == '_'

def isIdentPart (c : Char) : Bool :=
  c.isAlphanum || c == '_'

def isIdentChars : List Char → Bool
  | [] => false
  | c :: cs => isIdentStart c && cs.all isIdentPart

def isIdentifier (s : String) : Bool :=
  isIdentChars s.toList

def leadingIdent : List Char → List Char
  | [] => []
  | c :: cs => if isIdentStart c then c :: cs.takeWhile isIdentPart else []

def afterIdent : List Char → List Char
  | [] => []
  | c :: cs => if isIdentStart c then cs.dropWhile isIdentPart else c :: cs

theorem leadingIdent_append_afterIdent (cs : List Char) :
    leadingIdent cs ++ afterIdent cs = cs := by
  cases cs with
  | nil => rfl
  | cons c cs => by_cases h : isIdentStart c <;> simp [leadingIdent, afterIdent, h]

theorem length_afterIdent_le (cs : List Char) : (afterIdent cs).length ≤ cs.length := by
  have h := congrArg List.length (leadingIdent_append_afterIdent cs)
  rw [List.length_append] at h
  omega

end FlowScript.Text
