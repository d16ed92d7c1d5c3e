/-!
File systems: the operations that writing a script and copying assets need. Each operation may fail
with an error of the system.
-/

namespace FlowScript

inductive FileError where
  | notFound
  | exists
  | notDirectory
  | isDirectory
  | nameTooLong
  | notEmpty
  | invalidArgument
  | nulInPath
  | other (text : String)
  deriving DecidableEq, Repr

def FileError.text : FileError → String
  | .notFound => "No such file or directory (os error 2)"
  | .exists => "File exists (os error 17)"
  | .notDirectory => "Not a directory (os error 20)"
  | .isDirectory => "Is a directory (os error 21)"
  | .invalidArgument => "Invalid argument (os error 22)"
  | .nameTooLong => "File name too long (os error 36)"
  | .notEmpty => "Directory not empty (os error 39)"
  | .nulInPath => "file name contained an unexpected NUL byte"
  | .other text => text

def FileError.ofPath? (path : String) : Option FileError :=
  if path.toList.contains '\x00' then some .nulInPath
  else if path = "" then some .notFound
  else none

abbrev FileResult (α : Type) := Except FileError α

class FileSystem (m : Type → Type) where
  isDir : String → m Bool
  pathExists : String → m Bool
  makeDir : String → m (FileResult Unit)
  writeFile : String → String → m (FileResult Unit)
  readFile : String → m (FileResult String)
  list : String → m (FileResult (List (String × Bool)))
  removeDir : String → m (FileResult Unit)
  /-- Copies a file. The target is emptied before the source is read. -/
  copyFile : String → String → m (FileResult Unit)

end FlowScript
