import FlowScript.Compile.Basic
import FlowScript.Files.Output

/-!
Generation: a flow is compiled, its assets are copied and its script is written. Nothing is written
unless the flow compiles.
-/

namespace FlowScript

structure GenerateOptions where
  outDir : String := "script"
  scriptFile : String := "index.js"
  assets : Option String := none
  settings : Settings := {}

inductive GenerateError where
  | compile (error : CompileError)
  | output (error : OutputError)

def GenerateError.message : GenerateError → String
  | .compile error => "Compilation failed: " ++ error.message
  | .output error => "Output failed: " ++ error.message

def GenerateOptions.assetTarget (options : GenerateOptions) (assets : String) : String :=
  Path.join options.outDir ((Path.fileName? assets).getD "assets")

variable {m : Type → Type} [Monad m] [FileSystem m]

/-- Copies the assets, if there are any. A failure is only logged. -/
def copyOptionalAssets (options : GenerateOptions) : m (List Event) := do
  match options.assets with
  | none => return []
  | some assets =>
    match ← Output.copyAssets assets (options.assetTarget assets) with
    | .ok () => return []
    | .error error =>
      return [⟨.warn, "asset copy failed, continuing without assets", [("error", error.message)]⟩]

/-- Generates the script of a flow that has been read and validated, or failed to be. Gives the path
of the script, and the events in order. -/
def generate (source : Except CompileError Flow) (options : GenerateOptions) :
    m (Except GenerateError String × List Event) := do
  match source with
  | .error error => return (.error (.compile error), [])
  | .ok flow =>
    match flow.compileWith options.settings with
    | (.error error, log) => return (.error (.compile error), log.toList)
    | (.ok script, log) =>
      let assetLog ← copyOptionalAssets options
      match ← Output.writeScript options.outDir options.scriptFile script with
      | .error error => return (.error (.output error), log.toList ++ assetLog)
      | .ok path =>
        return (.ok path, log.toList ++ assetLog ++
          [⟨.info, "script generated", [("path", path), ("bytes", toString script.utf8ByteSize)]⟩])

end FlowScript
