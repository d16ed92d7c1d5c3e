/-!
Comparison of texts up to the case of ASCII letters. All other characters stand for themselves.
-/

namespace FlowScript.Text

def lowerAscii (s : String) : String :=
  String.ofList (s.toList.map Char.toLower)

def equalIgnoringCase (s t : String) : Bool :=
  lowerAscii s == lowerAscii t

def hasInfix (part : List Char) : List Char → Bool
  | [] => part.isEmpty
  | c :: cs => part.isPrefixOf (c :: cs) || hasInfix part cs

def contains (s part : String) : Bool :=
  hasInfix part.toList s.toList

end FlowScript.Text
