import FlowScript.Text.Blank

/-!
Paths as texts. A path is taken apart at its slashes; empty parts do not count.
-/

namespace FlowScript

namespace Path

def parts (path : String) : List String :=
  ((Text.splitAfter '/' path.toList).map String.ofList).filter (· != "")

def isAbsolute (path : String) : Bool :=
  path.toList.head? == some '/'

def endsInSlash (path : String) : Bool :=
  path.toList.getLast? == some '/'

/-- The path of a file in a directory. An absolute path stands for itself. -/
def join (dir file : String) : String :=
  if isAbsolute file || dir == "" then file
  else if endsInSlash dir then dir ++ file
  else dir ++ "/" ++ file

def names (path : String) : List String :=
  (parts path).filter (· != ".")

def fileName? (path : String) : Option String :=
  (names path).getLast?.filter (· != "..")

def ofNames (absolute : Bool) (names : List String) : String :=
  (if absolute then "/" else "") ++ "/".intercalate names

def parentsOf (absolute : Bool) : List String → List String
  | [] | [_] => []
  | _ :: rest => ofNames absolute rest.reverse :: parentsOf absolute rest

def upwards (path : String) : List String :=
  if path = "" then [] else path :: parentsOf (isAbsolute path) (names path).reverse

end Path

end FlowScript
