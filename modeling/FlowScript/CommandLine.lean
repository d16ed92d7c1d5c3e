import FlowScript.Generate

/-!
The command line: its arguments, and what a run prints and returns. A run reads a descriptor,
generates its script and tells where it is; a descriptor with several violations has them listed.
-/

namespace FlowScript.CommandLine

structure Arguments where
  descriptor : String
  outDir : String
  assets : Option String
  summaryDir : String
  strict : Bool
  deriving DecidableEq, Repr

structure Given where
  descriptor : Option String := none
  outDir : Option String := none
  assets : Option String := none
  summaryDir : Option String := none
  strict : Bool := false

inductive Valued where
  | outDir
  | assets
  | summaryDir
  deriving DecidableEq, Repr

inductive Argument where
  | positional (value : String)
  | valued (which : Valued) (value : Option String)
  | strict
  | help
  | version
  | endOfOptions
  | unknown

def Valued.ofLong? (name : List Char) : Option Valued :=
  if name = "out-dir".toList then some .outDir
  else if name = "assets".toList then some .assets
  else if name = "summary-dir".toList then some .summaryDir
  else none

def Argument.ofLong (cs : List Char) : Argument :=
  let name := cs.takeWhile (· != '=')
  let value :=
    match cs.dropWhile (· != '=') with
    | [] => none
    | _ :: value => some (String.ofList value)
  match Valued.ofLong? name, value with
  | some which, value => .valued which value
  | none, some _ => .unknown
  | none, none =>
    if name = "strict".toList then .strict
    else if name = "help".toList then .help
    else if name = "version".toList then .version
    else .unknown

def attached : List Char → Option String
  | [] => none
  | '=' :: value => some (String.ofList value)
  | value => some (String.ofList value)

def Argument.ofText (text : String) : Argument :=
  match text.toList with
  | ['-', '-'] => .endOfOptions
  | '-' :: '-' :: cs => .ofLong cs
  | '-' :: 'o' :: value => .valued .outDir (attached value)
  | '-' :: 'a' :: value => .valued .assets (attached value)
  | '-' :: 'h' :: _ => .help
  | '-' :: 'V' :: _ => .version
  | '-' :: _ :: _ => .unknown
  | _ => .positional text

/-- A separate argument can be the value of an option unless it looks like an option. -/
def canBeValue (text : String) : Bool :=
  match text.toList with
  | '-' :: _ :: _ => false
  | _ => true

namespace Given

def setDescriptor (given : Given) (value : String) : Option Given :=
  if given.descriptor.isSome || value == "" then none
  else some { given with descriptor := some value }

/-- An option may be given once. Only the directory of the summary may be empty. -/
def setValue (given : Given) (which : Valued) (value : String) : Option Given :=
  match which with
  | .outDir =>
    if given.outDir.isSome || value == "" then none else some { given with outDir := some value }
  | .assets =>
    if given.assets.isSome || value == "" then none else some { given with assets := some value }
  | .summaryDir =>
    if given.summaryDir.isSome then none else some { given with summaryDir := some value }

def setStrict (given : Given) : Option Given :=
  if given.strict then none else some { given with strict := true }

def arguments? (given : Given) : Option Arguments :=
  given.descriptor.map fun descriptor => {
    descriptor
    outDir := given.outDir.getD "script"
    assets := given.assets
    summaryDir := given.summaryDir.getD "/k6-script"
    strict := given.strict }

end Given

inductive Parsed where
  | run (arguments : Arguments)
  | help
  | version
  | rejected
  deriving DecidableEq, Repr

def finish (given : Given) : Parsed :=
  (given.arguments?.map Parsed.run).getD .rejected

def parsePositionals : Given → List String → Parsed
  | given, [] => finish given
  | given, text :: rest =>
    match given.setDescriptor text with
    | none => .rejected
    | some given => parsePositionals given rest

def parseFrom : Given → List String → Parsed
  | given, [] => finish given
  | given, text :: rest =>
    match Argument.ofText text with
    | .endOfOptions => parsePositionals given rest
    | .help => .help
    | .version => .version
    | .unknown => .rejected
    | .strict =>
      match given.setStrict with
      | none => .rejected
      | some given => parseFrom given rest
    | .positional value =>
      match given.setDescriptor value with
      | none => .rejected
      | some given => parseFrom given rest
    | .valued which (some value) =>
      match given.setValue which value with
      | none => .rejected
      | some given => parseFrom given rest
    | .valued which none =>
      match rest with
      | [] => .rejected
      | value :: rest =>
        if canBeValue value then
          match given.setValue which value with
          | none => .rejected
          | some given => parseFrom given rest
        else .rejected

def parse (args : List String) : Parsed :=
  parseFrom {} args

structure Outcome where
  code : UInt8
  out : String
  err : String

def usage : String :=
  "Usage: flowscript [-o DIR] [-a DIR] [--summary-dir DIR] [--strict] DESCRIPTOR\n"

def versionText : String := "flowscript 0.1.0\n"

def failed (message : String) : Outcome :=
  ⟨1, "", "Error: " ++ message ++ "\n"⟩

def problemList (violations : List CompileError) : String :=
  "Descriptor has " ++ toString violations.length ++ " problems:\n" ++
    String.join (violations.map fun violation => "  - " ++ violation.message ++ "\n")

def compileFailed (error : CompileError) : Outcome :=
  if 1 < error.violations.length then ⟨1, "", problemList error.violations⟩
  else failed error.message

def Arguments.options (arguments : Arguments) : GenerateOptions where
  outDir := arguments.outDir
  assets := arguments.assets
  settings := {
    summaryDir := if arguments.summaryDir == "" then none else some arguments.summaryDir
    strictness := if arguments.strict then .strict else .permissive }

variable {m : Type → Type} [Monad m] [FileSystem m]

def runWith (arguments : Arguments) : m Outcome := do
  match ← FileSystem.readFile arguments.descriptor with
  | .error error =>
    return failed ("Failed to read descriptor '" ++ arguments.descriptor ++ "': " ++ error.text)
  | .ok text =>
    match FlowDraft.ofText text with
    | .error fault => return failed ("Failed to parse descriptor JSON: " ++ fault.message text)
    | .ok draft =>
      match ← generate draft.validate arguments.options with
      | (.ok path, _) => return ⟨0, "Script generated successfully: " ++ path ++ "\n", ""⟩
      | (.error (.compile error), _) => return compileFailed error
      | (.error error, _) => return failed error.message

def run (args : List String) : m Outcome :=
  match parse args with
  | .run arguments => runWith arguments
  | .help => pure ⟨0, usage, ""⟩
  | .version => pure ⟨0, versionText, ""⟩
  | .rejected => pure ⟨2, "", usage⟩

end FlowScript.CommandLine
