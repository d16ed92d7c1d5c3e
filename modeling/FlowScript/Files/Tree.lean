import FlowScript.Files.Path
import FlowScript.Files.System

/-!
Trees of files and directories, as a file system without links and permissions. The root of a tree
is both the working directory and the root directory, and it is its own parent. A file holds a text,
so a tree has no files whose bytes are not UTF-8.
-/

namespace FlowScript

inductive Tree where
  | file (text : String)
  | dir (entries : List (String × Tree))
  deriving Repr

namespace Tree

def empty : Tree := .dir []

def isDirectory : Tree → Bool
  | .dir _ => true
  | .file _ => false

def find? (name : String) (entries : List (String × Tree)) : Option Tree :=
  (entries.find? (·.1 = name)).map Prod.snd

def alterEntry (name : String) (f : Option Tree → Option Tree) :
    List (String × Tree) → List (String × Tree)
  | [] => ((f none).map fun node => (name, node)).toList
  | (key, node) :: rest =>
    if key = name then ((f (some node)).map fun node => (name, node)).toList ++ rest
    else (key, node) :: alterEntry name f rest

def at? : List String → Tree → Option Tree
  | [], node => some node
  | _ :: _, .file _ => none
  | name :: rest, .dir entries => (find? name entries).bind (at? rest)

def alter (f : Option Tree → Option Tree) : List String → Tree → Tree
  | [], node => node
  | _ :: _, .file text => .file text
  | [name], .dir entries => .dir (alterEntry name f entries)
  | name :: rest, .dir entries => .dir (alterEntry name (Option.map (alter f rest)) entries)

def put (tree : Tree) (place : List String) (node : Tree) : Tree :=
  tree.alter (fun _ => some node) place

def erase (tree : Tree) (place : List String) : Tree :=
  tree.alter (fun _ => none) place

/-- The limit on the bytes of a path and on those of a name. -/
def pathLimit : Nat := 4096

def nameLimit : Nat := 255

def step (tree : Tree) (place : List String) (part : String) : FileResult (List String) :=
  match tree.at? place with
  | none => .error .notFound
  | some (.file _) => .error .notDirectory
  | some (.dir entries) =>
    if part = "." then .ok place
    else if part = ".." then .ok place.dropLast
    else if nameLimit < part.utf8ByteSize then .error .nameTooLong
    else if (find? part entries).isSome then .ok (place ++ [part])
    else .error .notFound

def walk (tree : Tree) : List String → List String → FileResult (List String)
  | place, [] => .ok place
  | place, part :: rest => do
    tree.walk (← tree.step place part) rest

def checkPath (path : String) : FileResult Unit :=
  match FileError.ofPath? path with
  | some error => .error error
  | none => if pathLimit ≤ path.utf8ByteSize then .error .nameTooLong else .ok ()

def lookup (tree : Tree) (path : String) : FileResult (List String × Tree) := do
  checkPath path
  let place ← tree.walk [] (Path.parts path)
  match tree.at? place with
  | none => .error .notFound
  | some (.file text) =>
    if Path.endsInSlash path then .error .notDirectory else .ok (place, .file text)
  | some node => .ok (place, node)

structure Target where
  dir : List String
  entries : List (String × Tree)
  /-- The last part; none for a path without parts and for one that ends in no name. -/
  name : Option String

def target (tree : Tree) (path : String) : FileResult Target := do
  checkPath path
  let parts := Path.parts path
  let place ← tree.walk [] parts.dropLast
  match tree.at? place, parts.getLast? with
  | some (.dir entries), some last =>
    if last = "." ∨ last = ".." then .ok ⟨place, entries, none⟩
    else if nameLimit < last.utf8ByteSize then .error .nameTooLong
    else .ok ⟨place, entries, some last⟩
  | some (.dir entries), none => .ok ⟨place, entries, none⟩
  | some (.file _), _ => .error .notDirectory
  | none, _ => .error .notFound

/-- Makes a directory. What is there already stays. -/
def makeDir (tree : Tree) (path : String) : FileResult Tree := do
  let target ← tree.target path
  match target.name with
  | none => .error .exists
  | some name =>
    if (find? name target.entries).isSome then .error .exists
    else .ok (tree.put (target.dir ++ [name]) (.dir []))

/-- Writes a file. A path that can only name a directory names no file. -/
def writeFile (tree : Tree) (path text : String) : FileResult Tree := do
  let target ← tree.target path
  match target.name with
  | none => .error .isDirectory
  | some name =>
    if Path.endsInSlash path then .error .isDirectory
    else
      match find? name target.entries with
      | some (.dir _) => .error .isDirectory
      | _ => .ok (tree.put (target.dir ++ [name]) (.file text))

def readFile (tree : Tree) (path : String) : FileResult String := do
  match ← tree.lookup path with
  | (_, .file text) => .ok text
  | (_, .dir _) => .error .isDirectory

def list (tree : Tree) (path : String) : FileResult (List (String × Bool)) := do
  match ← tree.lookup path with
  | (_, .file _) => .error .notDirectory
  | (_, .dir entries) => .ok (entries.map fun (name, node) => (name, node.isDirectory))

/-- Removes the directory of a path once all that was in it is gone. A path that leads through what
is gone names nothing, which is no failure; a path that does not end in a name cannot be removed. -/
def removeEmptied (tree : Tree) (path : String) (place : List String) : FileResult Unit × Tree :=
  match tree.walk [] (Path.parts path).dropLast with
  | .error .notFound => (.ok (), tree)
  | .error error => (.error error, tree)
  | .ok _ =>
    match (Path.parts path).getLast? with
    | none => (.error (.other "Device or resource busy (os error 16)"), tree)
    | some "." => (.error .invalidArgument, tree)
    | some ".." => (.error .notEmpty, tree)
    | some _ => (.ok (), tree.erase place)

def removeDir (tree : Tree) (path : String) : FileResult Unit × Tree :=
  match tree.lookup path with
  | .error error => (.error error, tree)
  | .ok (_, .file _) => (.error .notDirectory, tree)
  | .ok (place, .dir _) =>
    let emptied := if place = [] then empty else tree.put place empty
    emptied.removeEmptied path place

/-- Copies the text of a file. The target is emptied before the source is read, so a file that is
copied to itself is left empty. -/
def copyFile (tree : Tree) (source target : String) : FileResult Tree := do
  let _ ← tree.readFile source
  let opened ← tree.writeFile target ""
  opened.writeFile target (← opened.readFile source)

abbrev Stored := StateM Tree

def update (f : Tree → FileResult Tree) : Stored (FileResult Unit) := do
  match f (← get) with
  | .ok tree =>
    set tree
    return .ok ()
  | .error error => return .error error

instance : FileSystem Stored where
  isDir path := do
    return match (← get).lookup path with
      | .ok (_, node) => node.isDirectory
      | .error _ => false
  pathExists path := return ((← get).lookup path).isOk
  makeDir path := update (·.makeDir path)
  writeFile path text := update (·.writeFile path text)
  readFile path := return (← get).readFile path
  list path := return (← get).list path
  removeDir path := modifyGet (·.removeDir path)
  copyFile source target := update (·.copyFile source target)

def sorted (listings : List (String × List (String × Option String))) :
    List (String × Option String) :=
  (listings.mergeSort fun a b => a.1 ≤ b.1).flatMap Prod.snd

mutual

/-- All paths of a tree with the texts of its files, a directory before its contents and the names
of each directory in order. The path given is that of the tree itself. -/
def listing (path : String) : Tree → List (String × Option String)
  | .file text => [(path, some text)]
  | .dir entries =>
    (path ++ "/", none) :: sorted (listings (path ++ "/") entries)

def listings (base : String) :
    List (String × Tree) → List (String × List (String × Option String))
  | [] => []
  | (name, node) :: rest => (name, node.listing (base ++ name)) :: listings base rest

end

def contents : Tree → List (String × Option String)
  | .file _ => []
  | .dir entries => sorted (listings "" entries)

end Tree

end FlowScript
