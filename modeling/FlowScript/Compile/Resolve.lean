import FlowScript.Compile.Registry
import FlowScript.Error
import FlowScript.Event
import FlowScript.Script.Walk
import FlowScript.Settings

/-!
Resolution of variables: each read of a script needs an earlier assignment, in its own section or in
one whose bag reaches it.
-/

namespace FlowScript

def isVisible (assigned : List (SectionKind × String)) (kind : SectionKind) (name : String) :
    Bool :=
  (kind :: kind.inheritsFrom).any fun scope => assigned.contains (scope, name)

/-- The reads that no assignment before them makes available, in order and with repetitions. -/
def unresolvedReads : List (SectionKind × String) → List (SectionKind × VarEvent) →
    List (SectionKind × String)
  | _, [] => []
  | assigned, (kind, .assigned name) :: rest => unresolvedReads ((kind, name) :: assigned) rest
  | assigned, (kind, .used name) :: rest =>
    if isVisible assigned kind name then unresolvedReads assigned rest
    else (kind, name) :: unresolvedReads assigned rest

def Script.unresolved (script : Script) : List (SectionKind × String) :=
  unresolvedReads [] script.varEvents

def SectionKind.name : SectionKind → String
  | .imports => "Imports"
  | .options => "Options"
  | .summary => "Summary"
  | .setup => "Setup"
  | .teardown => "Teardown"
  | .main => "Main"

def unresolvedWarning (registry : Registry) (kind : SectionKind) (name : String) : Event :=
  match registry.get? name with
  | some binding =>
    ⟨.warn, "variable is read where its registering step's value is not available",
      [("variable", name), ("section", kind.name), ("producer", binding.producer.display)]⟩
  | none => ⟨.warn, "variable is never registered by any step", [("variable", name)]⟩

/-- The warnings for unresolved reads, or the error for the first of them in strict mode. -/
def resolveReads (registry : Registry) (strictness : Strictness)
    (reads : List (SectionKind × String)) : Except CompileError (List Event) :=
  match strictness, reads with
  | .strict, (_, name) :: _ => .error (.unresolvedVariable name)
  | _, _ => .ok (reads.map fun (kind, name) => unresolvedWarning registry kind name)

end FlowScript
