import FlowScript.Template.Basic

/-!
String literals and object keys of the script language. Text without variables stands in single
quotes; text with variables stands between backquotes, where each variable is interpolated from the
bag.
-/

namespace FlowScript

def backquote : Char := '\x60'

namespace Literal

def escapedChar (quote c : Char) : List Char :=
  if c = '\\' then ['\\', '\\']
  else if c = '\n' then ['\\', 'n']
  else if c = '\r' then ['\\', 'r']
  else if c = '\t' then ['\\', 't']
  else if c = '$' ∧ quote = backquote then ['\\', '$']
  else if c = quote then ['\\', c]
  else [c]

def escaped (quote : Char) (s : String) : String :=
  String.ofList (s.toList.flatMap (escapedChar quote))

def singleQuoted (s : String) : String :=
  "'" ++ escaped '\'' s ++ "'"

def isKeyStart (c : Char) : Bool :=
  c.isAlpha || c == '_' || c == '$'

def isKeyPart (c : Char) : Bool :=
  c.isAlphanum || c == '_' || c == '$'

def isPlainKeyChars : List Char → Bool
  | [] => false
  | c :: cs => isKeyStart c && cs.all isKeyPart

/-- An object key, in quotes unless it can stand alone. -/
def key (s : String) : String :=
  if isPlainKeyChars s.toList then s else singleQuoted s

end Literal

namespace Template

def lookup (bag name : String) : String :=
  bag ++ "." ++ name

def plainText (t : Template) : String :=
  String.join <| t.segments.map fun
    | .text s => s
    | .var _ => ""

def literalText (bag : String) (t : Template) : String :=
  if t.hasVariables then
    String.singleton backquote ++
      String.join (t.segments.map fun
        | .text s => Literal.escaped backquote s
        | .var name => "$\x7b" ++ lookup bag name ++ "\x7d") ++
      String.singleton backquote
  else Literal.singleQuoted t.plainText

def codeText (bag : String) (t : Template) : String :=
  String.join <| t.segments.map fun
    | .text s => s
    | .var name => lookup bag name

end Template

end FlowScript
