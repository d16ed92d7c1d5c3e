import Std.Data.HashMap
import FlowScript.Flow.StepRef

/-!
The registry of variables: all bindings in the order of their steps, and for each name its first
binding.
-/

namespace FlowScript

structure Binding where
  name : String
  producer : StepRef
  path : String
  deriving DecidableEq, Repr

structure Registry where
  entries : Array Binding
  /-- The index of the first entry of each name. -/
  firstIndex : Std.HashMap String Nat

namespace Registry

def empty : Registry := ⟨#[], ∅⟩

def register (registry : Registry) (binding : Binding) : Registry where
  entries := registry.entries.push binding
  firstIndex := registry.firstIndex.insertIfNew binding.name registry.entries.size

def get? (registry : Registry) (name : String) : Option Binding :=
  registry.firstIndex[name]?.bind (registry.entries[·]?)

def contains (registry : Registry) (name : String) : Bool :=
  registry.firstIndex.contains name

def size (registry : Registry) : Nat :=
  registry.entries.size

def isEmpty (registry : Registry) : Bool :=
  registry.entries.isEmpty

end Registry

end FlowScript
