import FlowScript.Text.Blank

/-!
Settings of a compilation.
-/

namespace FlowScript

inductive Strictness where
  | permissive
  | strict
  deriving DecidableEq, Repr

structure Settings where
  /-- The name of the runtime object that carries values between steps. -/
  bag : String := "variables"
  /-- The directory that the runtime writes its summary to; without one it is written where the
  runtime is started. -/
  summaryDir : Option String := some "/k6-script"
  strictness : Strictness := .permissive
  indent : Nat := 2
  deriving DecidableEq, Repr

namespace Settings

def summaryFile : String := "summary.json"

/-- The path of the summary. Slashes at the end of its directory do not count. -/
def summaryPath (settings : Settings) : String :=
  match settings.summaryDir.map (Text.trimEnd '/') with
  | none | some "" => summaryFile
  | some dir => dir ++ "/" ++ summaryFile

end Settings

end FlowScript
