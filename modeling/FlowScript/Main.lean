import FlowScript.CommandLine

/-!
The program: the command line on the disk.
-/

namespace FlowScript.Disk

def located (path : String) : IO.FS.DirEntry :=
  ⟨".", path⟩

def errorOf : IO.Error → FileError
  | .noFileOrDirectory .. => .notFound
  | .alreadyExists .. => .exists
  | .inappropriateType _ 20 _ => .notDirectory
  | .inappropriateType _ 21 _ => .isDirectory
  | error => .other (toString error)

/-- An action on a path, which is left out if the path brings an error by itself. -/
def attempt {α : Type} (path : String) (action : IO α) : IO (FileResult α) := do
  match FileError.ofPath? path with
  | some error => return .error error
  | none => try return .ok (← action) catch error => return .error (errorOf error)

instance : FileSystem IO where
  isDir path :=
    if (FileError.ofPath? path).isSome then return false else (located path).path.isDir
  pathExists path :=
    if (FileError.ofPath? path).isSome then return false else (located path).path.pathExists
  makeDir path := attempt path (IO.FS.createDir path)
  writeFile path text := attempt path (IO.FS.writeFile path text)
  readFile path := attempt path (IO.FS.readFile path)
  list path := attempt path do
    let entries ← (located path).path.readDir
    entries.toList.mapM fun entry => return (entry.fileName, ← entry.path.isDir)
  removeDir path := attempt path (IO.FS.removeDirAll path)
  copyFile source target := attempt target do
    let _ ← IO.FS.readBinFile source
    IO.FS.writeBinFile target ByteArray.empty
    IO.FS.writeBinFile target (← IO.FS.readBinFile source)

end FlowScript.Disk

def main (args : List String) : IO UInt32 := do
  let outcome ← (FlowScript.CommandLine.run args : IO FlowScript.CommandLine.Outcome)
  (← IO.getStdout).putStr outcome.out
  (← IO.getStderr).putStr outcome.err
  return outcome.code.toUInt32
