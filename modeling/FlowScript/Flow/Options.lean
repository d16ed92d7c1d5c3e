import FlowScript.Json.Record

/-!
Execution options of a flow: the known options and, in the order they were given, all others. They
are passed to the runtime as one JSON object.
-/

namespace FlowScript

open Json (Decoder Field Record Number)

/-- A ramp to a number of virtual users over a duration. -/
structure Stage where
  duration : String
  target : Nat
  deriving DecidableEq, Repr

structure ExecutionOptions where
  vus : Option Nat
  duration : Option String
  iterations : Option Nat
  stages : Option (List Stage)
  thresholds : Option (List (String × Json))
  extra : List (String × Json)
  deriving Repr

def Stage.toJson (stage : Stage) : Json :=
  .object [("duration", .string stage.duration), ("target", .number (.natural stage.target))]

namespace ExecutionOptions

def none : ExecutionOptions where
  vus := .none
  duration := .none
  iterations := .none
  stages := .none
  thresholds := .none
  extra := []

def known (options : ExecutionOptions) : List (String × Json) :=
  (options.vus.map fun n => ("vus", Json.number (.natural n))).toList ++
  (options.duration.map fun s => ("duration", Json.string s)).toList ++
  (options.iterations.map fun n => ("iterations", Json.number (.natural n))).toList ++
  (options.stages.map fun all => ("stages", Json.array (all.map Stage.toJson))).toList ++
  (options.thresholds.map fun all => ("thresholds", Json.object all)).toList

def toJson (options : ExecutionOptions) : Json :=
  .object (Json.ofMembers (options.known ++ options.extra))

end ExecutionOptions

def Stage.shape : Record Stage where
  name := "LoadStage"
  blank := ⟨"", 0⟩
  fields := [
    .needed ["duration"] .string fun duration stage => { stage with duration },
    .needed ["target"] .natural fun target stage => { stage with target }]

def ExecutionOptions.shape : Record ExecutionOptions where
  name := "ExecutionOptions"
  blank := .none
  fields := [
    .named ["vus"] (.optional .natural) fun vus options => { options with vus },
    .named ["duration"] (.optional .string) fun duration options => { options with duration },
    .named ["iterations"] (.optional .natural) fun iterations options =>
      { options with iterations },
    .named ["stages"] (.optional (.list Stage.shape.decode)) fun stages options =>
      { options with stages },
    .named ["thresholds"] (.optional .members) fun thresholds options =>
      { options with thresholds }]
  other name depth doc options := do
    let value ← doc.toJson depth
    return { options with extra := Json.insert name value options.extra }
  positional := false

end FlowScript
