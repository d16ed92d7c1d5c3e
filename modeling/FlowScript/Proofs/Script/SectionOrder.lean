import FlowScript.Proofs.Compile.Strictness
import FlowScript.Proofs.Script.Freestanding
import FlowScript.Proofs.Script.Resolution

/-! The order in which a script lists its sections does not matter. They are written in the order of
the text and executed in that of the runtime, and the two differ in the last two sections. -/

namespace FlowScript

namespace Script

def inRuntimeOrder (script : Script) : List Section :=
  SectionKind.runtimeOrder.filterMap script.find?

theorem varEvents_eq_flatMap (script : Script) :
    script.varEvents = script.inRuntimeOrder.flatMap Section.varEvents := by
  unfold varEvents inRuntimeOrder
  rw [List.filterMap_eq_flatMap_toList, List.flatMap_assoc]
  congr 1
  funext kind
  cases script.find? kind with
  | none => rfl
  | some sect => simp

section Orders

variable {script : Script} (hdistinct : (script.sections.map (·.kind)).Nodup)
include hdistinct

theorem find?_eq_some_iff {kind : SectionKind} {sect : Section} :
    script.find? kind = some sect ↔ sect ∈ script.sections ∧ sect.kind = kind := by
  constructor
  · intro hfind
    exact ⟨List.mem_of_find?_eq_some hfind, by simpa using List.find?_some hfind⟩
  · rintro ⟨hmem, rfl⟩
    have hfilter : sect ∈ script.sections.filter (·.kind = sect.kind) := by simpa using hmem
    rw [filter_kind_of_nodup hdistinct, Option.mem_toList] at hfilter
    exact hfilter

theorem inTextOrder_eq_filterMap :
    script.inTextOrder = SectionKind.textOrder.filterMap script.find? := by
  unfold inTextOrder find?
  rw [List.filterMap_eq_flatMap_toList]
  congr 1
  funext kind
  exact filter_kind_of_nodup hdistinct kind

theorem sublist_kinds (order : List SectionKind) :
    ((order.filterMap script.find?).map (·.kind)).Sublist order := by
  induction order with
  | nil => exact .slnil
  | cons kind rest ih =>
    cases hfind : script.find? kind with
    | none =>
      rw [List.filterMap_cons_none hfind]
      exact ih.cons kind
    | some sect =>
      rw [List.filterMap_cons_some hfind, List.map_cons,
        ((find?_eq_some_iff hdistinct).mp hfind).2]
      exact ih.cons_cons kind

theorem perm_sections {order : List SectionKind} (horder : order.Nodup)
    (hall : ∀ kind, kind ∈ order) : (order.filterMap script.find?).Perm script.sections := by
  have hnodup : (order.filterMap script.find?).Nodup :=
    .of_map _ (horder.sublist (sublist_kinds hdistinct order))
  rw [List.perm_ext_iff_of_nodup hnodup hdistinct.of_map]
  intro sect
  simp only [List.mem_filterMap, find?_eq_some_iff hdistinct]
  exact ⟨fun ⟨_, _, hmem, _⟩ => hmem, fun hmem => ⟨sect.kind, hall _, hmem, rfl⟩⟩

theorem find?_of_perm {other : Script} (hperm : script.sections.Perm other.sections) :
    script.find? = other.find? := by
  have hdistinct' : (other.sections.map (·.kind)).Nodup :=
    (hperm.map _).nodup_iff.mp hdistinct
  funext kind
  apply Option.ext
  intro sect
  rw [find?_eq_some_iff hdistinct, find?_eq_some_iff hdistinct', hperm.mem_iff]

end Orders

/-- Scripts with the same sections are the same script to everything that reads them, whatever the
order in which they list them. -/
theorem sections_unordered {script other : Script}
    (hdistinct : (script.sections.map (·.kind)).Nodup)
    (hperm : script.sections.Perm other.sections) :
    (∀ bag, script.render bag = other.render bag) ∧
    script.varEvents = other.varEvents ∧
    (∀ settings session,
      script.assemble.runFrom settings session = other.assemble.runFrom settings session) ∧
    (∀ bag, script.render bag = renderSections bag script.inTextOrder) ∧
    script.inTextOrder.Perm script.sections ∧
    (script.inTextOrder.map (·.kind)).Sublist
      [.imports, .options, .summary, .setup, .teardown, .main] ∧
    script.varEvents = script.inRuntimeOrder.flatMap Section.varEvents ∧
    script.inRuntimeOrder.Perm script.sections ∧
    (script.inRuntimeOrder.map (·.kind)).Sublist
      [.imports, .options, .summary, .setup, .main, .teardown] := by
  have hdistinct' : (other.sections.map (·.kind)).Nodup :=
    (hperm.map _).nodup_iff.mp hdistinct
  have hfind := find?_of_perm hdistinct hperm
  have htext : script.inTextOrder = SectionKind.textOrder.filterMap script.find? :=
    inTextOrder_eq_filterMap hdistinct
  have hrender (bag : String) : script.render bag = other.render bag := by
    rw [render, render, htext, inTextOrder_eq_filterMap hdistinct', hfind]
  have hevents : script.varEvents = other.varEvents := by
    rw [varEvents, varEvents, hfind]
  refine ⟨hrender, hevents, fun settings session => ?_, fun _ => rfl, ?_, ?_,
    script.varEvents_eq_flatMap, ?_, ?_⟩
  · rw [runFrom_assemble, runFrom_assemble, text, text, hrender, unresolved, unresolved, hevents]
  · rw [htext]
    exact perm_sections hdistinct (by decide) (by intro kind; cases kind <;> decide)
  · rw [htext]
    exact sublist_kinds hdistinct _
  · exact perm_sections hdistinct (by decide) (by intro kind; cases kind <;> decide)
  · exact sublist_kinds hdistinct _

def strayReadScript : Script where
  sections := [
    ⟨.main, [.function .default ["bag"] [.assign "id" (.code (.literal "req_0_0.body"))]]⟩,
    ⟨.teardown, [.function (.named "teardown") ["bag"] [.expr (.str (.ofVar "id"))]]⟩,
    ⟨.imports, [.raw "import http from 'k6/http'"]⟩]

theorem strayReadScript_unordered :
    (strayReadScript.sections.map (·.kind)).Nodup ∧
    strayReadScript.sections.Perm (Script.mk strayReadScript.sections.reverse).sections ∧
    strayReadScript.varEvents = [(.main, .assigned "id"), (.teardown, .used "id")] ∧
    strayReadScript.render "bag" =
      (Script.mk strayReadScript.sections.reverse).render "bag" ∧
    strayReadScript.assemble.runFrom {} .start =
      (Script.mk strayReadScript.sections.reverse).assemble.runFrom {} .start := by
  have hdistinct : (strayReadScript.sections.map (·.kind)).Nodup := by decide
  have hperm : strayReadScript.sections.Perm (Script.mk strayReadScript.sections.reverse).sections :=
    (List.reverse_perm _).symm
  obtain ⟨hrender, -, hassemble, -⟩ := sections_unordered hdistinct hperm
  exact ⟨hdistinct, hperm, rfl, hrender "bag", hassemble _ _⟩

end Script

end FlowScript
