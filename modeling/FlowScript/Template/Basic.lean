import FlowScript.Template.Token

/-!
Templates: texts whose variable references are set apart. The operations build templates in normal
form, where no text segment is empty and no two text segments are neighbours, so that a template
has one list of segments.
-/

namespace FlowScript

inductive Segment where
  | text (s : String)
  | var (name : String)
  deriving DecidableEq, Repr

structure Template where
  segments : List Segment
  deriving DecidableEq, Repr

namespace Template

def empty : Template := ⟨[]⟩

/-- Adds text at the end of segments. Empty text adds nothing, and text joins the text before it. -/
def appendText (s : String) : List Segment → List Segment
  | [] => if s = "" then [] else [.text s]
  | [.text t] => [.text (t ++ s)]
  | segment :: rest => segment :: appendText s rest

def pushText (t : Template) (s : String) : Template :=
  ⟨appendText s t.segments⟩

def pushVar (t : Template) (name : String) : Template :=
  ⟨t.segments ++ [.var name]⟩

def pushSegment (t : Template) : Segment → Template
  | .text s => t.pushText s
  | .var name => t.pushVar name

def append (t u : Template) : Template :=
  u.segments.foldl pushSegment t

instance : Append Template := ⟨append⟩

def literal (s : String) : Template :=
  empty.pushText s

def ofVar (name : String) : Template :=
  empty.pushVar name

/-- A template from tokens, where `bareText` says what a bare dollar sign stands for. -/
def ofTokens (bareText : String) (tokens : List Token) (start : Template) : Template :=
  tokens.foldl (fun t token =>
    match token with
    | .text s => t.pushText s
    | .var name => t.pushVar name
    | .bare => t.pushText bareText) start

def parse (s : String) : Template :=
  ofTokens "$" (scan s) empty

def varNames (t : Template) : List String :=
  t.segments.filterMap fun
    | .text _ => none
    | .var name => some name

def hasVariables (t : Template) : Bool :=
  !t.varNames.isEmpty

def isEmpty (t : Template) : Bool :=
  t.segments.isEmpty

def display (t : Template) : String :=
  String.join <| t.segments.map fun
    | .text s => s
    | .var name => "$\x7b" ++ name ++ "\x7d"

end Template

end FlowScript
