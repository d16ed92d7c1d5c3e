import FlowScript.Files.Path
import FlowScript.Files.System
import FlowScript.Text.Blank

/-!
Writing a script and copying the assets beside it, on any file system.
-/

namespace FlowScript

inductive CopyCause where
  | system (error : FileError)
  | noAssets
  deriving DecidableEq, Repr

def CopyCause.text : CopyCause → String
  | .system error => error.text
  | .noAssets => "asset directory does not exist"

inductive OutputError where
  | createDir (path : String) (error : FileError)
  | writeScript (path : String) (error : FileError)
  | copyAssets (source target : String) (cause : CopyCause)
  deriving DecidableEq, Repr

namespace OutputError

/-- The message, with a text of the caller's choice for errors of the system. -/
def messageWith (systemText : FileError → String) : OutputError → String
  | .createDir path error =>
    "Could not create directory '" ++ path ++ "': " ++ systemText error
  | .writeScript path error => "Could not write script '" ++ path ++ "': " ++ systemText error
  | .copyAssets source target cause =>
    "Could not copy assets from '" ++ source ++ "' to '" ++ target ++ "': " ++
      match cause with
      | .system error => systemText error
      | .noAssets => cause.text

def message : OutputError → String :=
  messageWith FileError.text

end OutputError

namespace Output

variable {m : Type → Type} [Monad m] [FileSystem m]

def unlessDir (path : String) (error : FileError) : m (FileResult Unit) := do
  return if ← FileSystem.isDir path then .ok () else .error error

/-- Makes the first of a list of directories, of which each is the parent of the one before it. Only
parents that are missing are made. -/
def makeDirs : List String → m (FileResult Unit)
  | [] => return .ok ()
  | path :: parents => do
    match ← FileSystem.makeDir path with
    | .ok () => return .ok ()
    | .error .notFound =>
      match ← makeDirs parents with
      | .error error => return .error error
      | .ok () =>
        match ← FileSystem.makeDir path with
        | .ok () => return .ok ()
        | .error error => unlessDir path error
    | .error error => unlessDir path error

def makeDirAll (path : String) : m (FileResult Unit) :=
  makeDirs (Path.upwards path)

/-- Writes a script without blanks around it and with one line feed at its end. Gives its path. -/
def writeScript (dir file text : String) : m (Except OutputError String) := do
  match ← makeDirAll dir with
  | .error error => return .error (.createDir dir error)
  | .ok () =>
    let path := Path.join dir file
    match ← FileSystem.writeFile path (Text.trim text ++ "\n") with
    | .error error => return .error (.writeScript path error)
    | .ok () => return .ok path

def copyEach (copy : String × Bool → m (FileResult Unit)) :
    List (String × Bool) → m (FileResult Unit)
  | [] => return .ok ()
  | entry :: rest => do
    match ← copy entry with
    | .error error => return .error error
    | .ok () => copyEach copy rest

/-- Copies a directory into another, which is made if it is missing. A path gets longer with every
level, so the levels that paths can name bound the depth, also when a directory is copied into
itself. -/
def copyTree : Nat → String → String → m (FileResult Unit)
  | 0, _, _ => return .error .nameTooLong
  | levels + 1, source, target => do
    match ← makeDirAll target with
    | .error error => return .error error
    | .ok () =>
      match ← FileSystem.list source with
      | .error error => return .error error
      | .ok entries =>
        copyEach (fun (name, isDir) =>
          if isDir then copyTree levels (Path.join source name) (Path.join target name)
          else FileSystem.copyFile (Path.join source name) (Path.join target name)) entries

def maxLevels : Nat := 4096

def copyAssets (source target : String) : m (Except OutputError Unit) := do
  let failed (error : FileError) : Except OutputError Unit :=
    .error (.copyAssets source target (.system error))
  if !(← FileSystem.isDir source) then
    return .error (.copyAssets source target .noAssets)
  let removed : FileResult Unit ←
    if ← FileSystem.pathExists target then FileSystem.removeDir target else pure (.ok ())
  match removed with
  | .error error => return failed error
  | .ok () =>
    match ← copyTree maxLevels source target with
    | .error error => return failed error
    | .ok () => return .ok ()

end Output

end FlowScript
