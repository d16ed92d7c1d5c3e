import FlowScript.Compile.Registry
import Mathlib.Data.List.Basic
import Mathlib.Order.Bounds.Basic

/-! The registry as the list of its bindings: the index finds in it the first binding of a name.
After any calls the entries are the calls, and the index tells where each name comes up first. -/

namespace FlowScript.Registry

/-- The index leads to the first entry of each name, and to nothing for other names. -/
def IsIndexed (registry : Registry) : Prop :=
  ∀ name : String,
    registry.firstIndex[name]? = registry.entries.toList.findIdx? (·.name = name)

theorem isIndexed_empty : empty.IsIndexed := by
  intro name
  simp [empty]

theorem toList_entries_register (registry : Registry) (binding : Binding) :
    (registry.register binding).entries.toList = registry.entries.toList ++ [binding] := by
  simp [register]

theorem IsIndexed.register {registry : Registry} (h : registry.IsIndexed) (binding : Binding) :
    (registry.register binding).IsIndexed := by
  intro name
  rw [toList_entries_register, List.findIdx?_append, ← h name, Registry.register,
    Std.HashMap.getElem?_insertIfNew]
  by_cases hname : binding.name = name
  · subst hname
    cases hold : registry.firstIndex[binding.name]? with
    | none => simp [hold, Std.HashMap.mem_iff_isSome_getElem?]
    | some index => simp [hold, Std.HashMap.mem_iff_isSome_getElem?]
  · simp [hname]

theorem isIndexed_foldl_register {registry : Registry} (h : registry.IsIndexed)
    (bindings : List Binding) : (bindings.foldl Registry.register registry).IsIndexed := by
  induction bindings generalizing registry with
  | nil => exact h
  | cons binding rest ih => exact ih (h.register binding)

theorem toList_entries_foldl_register (registry : Registry) (bindings : List Binding) :
    (bindings.foldl Registry.register registry).entries.toList =
      registry.entries.toList ++ bindings := by
  induction bindings generalizing registry with
  | nil => exact (List.append_nil _).symm
  | cons binding rest ih =>
    rw [List.foldl_cons, ih, toList_entries_register, List.append_assoc, List.singleton_append]

theorem IsIndexed.get?_eq {registry : Registry} (h : registry.IsIndexed) (name : String) :
    registry.get? name = registry.entries.toList.find? (·.name = name) := by
  unfold get?
  rw [h name, List.find?_eq_map_findFinIdx?_getElem, List.findIdx?_eq_map_findFinIdx?_val]
  cases List.findFinIdx? (fun x => decide (x.name = name)) registry.entries.toList with
  | none => rfl
  | some index => simp

theorem IsIndexed.contains_iff {registry : Registry} (h : registry.IsIndexed) (name : String) :
    registry.contains name ↔ ∃ binding ∈ registry.entries.toList, binding.name = name := by
  unfold contains
  rw [Std.HashMap.contains_eq_isSome_getElem?, h name, List.findIdx?_isSome, List.any_eq_true]
  simp only [decide_eq_true_eq]

section Calls

variable {registry : Registry}

theorem IsIndexed.firstIndex_eq_some_iff (h : registry.IsIndexed) {name : String} {index : Nat} :
    registry.firstIndex[name]? = some index ↔
      IsLeast {spot | ∃ binding, registry.entries[spot]? = some binding ∧ binding.name = name}
        index := by
  rw [h name, List.findIdx?_eq_some_iff_getElem]
  constructor
  · rintro ⟨hrange, hname, hbefore⟩
    rw [Array.length_toList] at hrange
    refine ⟨⟨registry.entries[index], Array.getElem?_eq_getElem hrange, by simpa using hname⟩, ?_⟩
    rintro spot ⟨binding, hbinding, hspot⟩
    obtain ⟨_, rfl⟩ := Array.getElem?_eq_some_iff.mp hbinding
    by_contra hless
    exact absurd hspot (by simpa using hbefore spot (Nat.lt_of_not_le hless))
  · rintro ⟨⟨binding, hbinding, hname⟩, hleast⟩
    obtain ⟨hrange, rfl⟩ := Array.getElem?_eq_some_iff.mp hbinding
    refine ⟨by simpa using hrange, by simpa using hname, fun spot hspot => ?_⟩
    have hother : spot < registry.entries.size := hspot.trans hrange
    have hne : registry.entries[spot].name ≠ name := fun heq =>
      absurd (hleast ⟨_, Array.getElem?_eq_getElem hother, heq⟩) (Nat.not_le.mpr hspot)
    simpa using hne

theorem IsIndexed.get?_register (h : registry.IsIndexed) (binding : Binding) (name : String) :
    (registry.register binding).get? name =
      (registry.get? name).or (if binding.name = name then some binding else none) := by
  rw [(h.register binding).get?_eq, h.get?_eq, toList_entries_register, List.find?_append]
  by_cases hname : binding.name = name <;> simp [hname]

structure Records (registry : Registry) (calls : List Binding) : Prop where
  entries : registry.entries.toList = calls
  mem_firstIndex : ∀ name, name ∈ registry.firstIndex ↔ name ∈ calls.map Binding.name
  firstIndex : ∀ name index, registry.firstIndex[name]? = some index ↔
    IsLeast {spot : Nat | ∃ binding, calls[spot]? = some binding ∧ binding.name = name} index
  get? : ∀ name, registry.get? name = calls.find? (·.name = name)
  contains : ∀ name, registry.contains name = (registry.get? name).isSome
  get?_register : ∀ (binding : Binding) name, (registry.register binding).get? name =
    (registry.get? name).or (if binding.name = name then some binding else none)

theorem IsIndexed.records (h : registry.IsIndexed) : registry.Records registry.entries.toList where
  entries := rfl
  mem_firstIndex name := by
    rw [← Std.HashMap.contains_iff_mem]
    exact (h.contains_iff name).trans List.mem_map.symm
  firstIndex name index := by
    rw [h.firstIndex_eq_some_iff]
    simp
  get? := h.get?_eq
  contains name := by
    rw [Bool.eq_iff_iff, h.contains_iff, h.get?_eq, List.find?_isSome]
    simp only [decide_eq_true_eq]
  get?_register := h.get?_register

/-- After any calls the entries are just the calls, the index has just their names, each with the
first spot of its name, and a name is looked up to the first call with it. A further call changes
no answer that there was. -/
theorem records_foldl_register (calls : List Binding) :
    (calls.foldl register empty).Records calls := by
  have hcalls : (calls.foldl register empty).entries.toList = calls :=
    toList_entries_foldl_register empty calls
  have hrecords := (isIndexed_foldl_register isIndexed_empty calls).records
  rwa [hcalls] at hrecords

end Calls

end FlowScript.Registry
