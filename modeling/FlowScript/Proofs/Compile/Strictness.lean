import FlowScript.Proofs.Compile.Outcome
import FlowScript.Proofs.Flow.StepRef

/-! Strict and permissive compilation side by side. Both meet the same problems in the same order;
strict compilation ends at the first one, permissive compilation warns of each and goes on. -/

namespace FlowScript

open Compile Effect

variable (settings : Settings)

namespace Compile

theorem runFrom_lift {α : Type} (result : Except CompileError α) (session : Session) :
    (liftM result : Compile α).runFrom settings session = (result, session) := by
  cases result <;> rfl

theorem runFrom_forM_report (events : List Event) (session : Session) :
    (events.forM report).runFrom settings session =
      (.ok (), { session with log := session.log ++ events.toArray }) := by
  induction events generalizing session with
  | nil =>
    simp only [List.forM_eq_forM, List.forM_nil, runFrom_pure, Array.append_empty]
  | cons event rest ih =>
    rw [List.forM_eq_forM] at ih ⊢
    rw [List.forM_cons, runFrom_bind, runFrom_report]
    simp only [ih, Prod.mk.injEq, Session.mk.injEq, true_and]
    rw [← Array.toList_inj]
    simp

end Compile

namespace Script

def text (script : Script) (settings : Settings) : String :=
  Layout.normalize (script.render settings.bag) settings.indent

theorem runFrom_assemble (script : Script) (session : Session) :
    script.assemble.runFrom settings session =
      match resolveReads session.registry settings.strictness script.unresolved with
      | .ok events =>
        (.ok (script.text settings), { session with log := session.log ++ events.toArray })
      | .error error => (.error error, session) := by
  have hread : (read : Compile Settings).runFrom settings session = (.ok settings, session) := rfl
  have hget : (get : Compile Session).runFrom settings session = (.ok session, session) := rfl
  unfold assemble
  rw [runFrom_bind, hread]
  dsimp only
  rw [runFrom_bind, hget]
  dsimp only
  rw [runFrom_bind, runFrom_lift]
  cases resolveReads session.registry settings.strictness script.unresolved with
  | error error => rfl
  | ok events =>
    dsimp only
    rw [runFrom_bind, runFrom_forM_report]
    rfl

end Script

theorem unresolvedWarning_level (registry : Registry) (kind : SectionKind) (name : String) :
    (unresolvedWarning registry kind name).level = .warn := by
  unfold unresolvedWarning
  split <;> rfl

theorem warnings_append_toArray (log : Array Event) {events : List Event}
    (h : ∀ event ∈ events, event.level = .warn) :
    warnings (log ++ events.toArray) = warnings log ++ events := by
  simpa [warnings] using h

namespace Flow

def text (flow : Flow) (settings : Settings) : String :=
  (flow.scriptFor settings).text settings

def unresolved (flow : Flow) (settings : Settings) : List (SectionKind × String) :=
  (flow.scriptFor settings).unresolved

def registry (flow : Flow) : Registry :=
  (bindings flow.effects).foldl Registry.register .empty

theorem compile_permissive (flow : Flow) :
    (flow.compileWith { settings with strictness := .permissive }).1 = .ok (flow.text settings) ∧
    warnings (flow.compileWith { settings with strictness := .permissive }).2 =
      (gaps flow.effects).map (fun gap => tokenWarning gap.1 gap.2) ++
      (flow.unresolved settings).map fun read => unresolvedWarning flow.registry read.1 read.2 := by
  obtain ⟨hresult, htrail⟩ := flow.performs_script settings .permissive .start
  rw [play_permissive] at hresult htrail
  unfold compileWith compile
  rw [runFrom_bind]
  generalize flow.script.runFrom { settings with strictness := .permissive } .start = run
    at hresult htrail ⊢
  obtain ⟨result, session⟩ := run
  obtain rfl : result = .ok (flow.scriptFor settings) := hresult
  obtain ⟨hregistry, hwarnings⟩ := Trail.mk.inj htrail
  dsimp only at hregistry hwarnings ⊢
  rw [Script.runFrom_assemble]
  refine ⟨rfl, ?_⟩
  dsimp only [resolveReads]
  rw [warnings_append_toArray, hwarnings, hregistry]
  · rfl
  · intro event hevent
    obtain ⟨⟨kind, name⟩, -, rfl⟩ := List.mem_map.mp hevent
    exact unresolvedWarning_level _ kind name

theorem compile_strict (flow : Flow) :
    (flow.compileWith { settings with strictness := .strict }).1 =
      match gaps flow.effects, flow.unresolved settings with
      | (ref, token) :: _, _ => .error (.unresolvedPathToken ref token)
      | [], (_, name) :: _ => .error (.unresolvedVariable name)
      | [], [] => .ok (flow.text settings) := by
  have hresult := (flow.performs_script settings .strict .start).1
  unfold compileWith compile
  rw [runFrom_bind]
  generalize flow.script.runFrom { settings with strictness := .strict } .start = run
    at hresult ⊢
  obtain ⟨result, session⟩ := run
  cases hgaps : gaps flow.effects with
  | cons gap others =>
    rw [play_strict_of_gaps_cons hgaps] at hresult
    obtain rfl : result = .error (.unresolvedPathToken gap.1 gap.2) := hresult
    rfl
  | nil =>
    rw [play_strict_of_gaps_nil hgaps, play_permissive] at hresult
    obtain rfl : result = .ok (flow.scriptFor settings) := hresult
    dsimp only
    rw [Script.runFrom_assemble]
    unfold unresolved
    cases (flow.scriptFor settings).unresolved with
    | nil => rfl
    | cons read others => rfl

end Flow

/-- The error that stands for the problem of a warning: the path token with its step, or else the
variable. -/
inductive Event.Announces (warning : Event) : CompileError → Prop where
  | token {ref : StepRef} {token : String} (hmessage : warning.message = tokenMessage)
      (hstep : warning.fields.lookup "step" = some ref.display)
      (htoken : warning.fields.lookup "token" = some token) :
      warning.Announces (.unresolvedPathToken ref token)
  | read {name : String} (hmessage : warning.message ≠ tokenMessage)
      (hname : warning.fields.lookup "variable" = some name) :
      warning.Announces (.unresolvedVariable name)

theorem Event.Announces.unique {warning : Event} {x y : CompileError}
    (hx : warning.Announces x) (hy : warning.Announces y) : x = y := by
  cases hx with
  | token hmessage hstep htoken =>
    cases hy with
    | token _ hstep' htoken' =>
      rw [hstep] at hstep'
      rw [htoken] at htoken'
      rw [StepRef.display_injective (Option.some.inj hstep'), Option.some.inj htoken']
    | read hmessage' _ => exact absurd hmessage hmessage'
  | read hmessage hname =>
    cases hy with
    | token hmessage' _ _ => exact absurd hmessage' hmessage
    | read _ hname' =>
      rw [hname] at hname'
      rw [Option.some.inj hname']

theorem tokenWarning_announces (ref : StepRef) (token : String) :
    (tokenWarning ref token).Announces (.unresolvedPathToken ref token) :=
  .token rfl rfl rfl

theorem unresolvedWarning_announces (registry : Registry) (kind : SectionKind) (name : String) :
    (unresolvedWarning registry kind name).Announces (.unresolvedVariable name) := by
  unfold unresolvedWarning
  split
  · exact .read (by simp [tokenMessage]) rfl
  · exact .read (by simp [tokenMessage]) rfl

/-- Strict compilation refines permissive compilation. The permissive one always gives a text; the
strict one gives the same text if there was no warning, and else the error that the first warning
announces. -/
theorem Flow.strict_refines_permissive (flow : Flow) :
    let permissive := flow.compileWith { settings with strictness := .permissive }
    let strict := flow.compileWith { settings with strictness := .strict }
    ∃ text, permissive.1 = .ok text ∧
      match warnings permissive.2 with
      | [] => strict.1 = .ok text
      | first :: _ => ∃ error, strict.1 = .error error ∧ first.Announces error ∧
          ∀ other, first.Announces other → other = error := by
  obtain ⟨hresult, hwarnings⟩ := flow.compile_permissive settings
  refine ⟨flow.text settings, hresult, ?_⟩
  rw [hwarnings, flow.compile_strict settings]
  cases gaps flow.effects with
  | cons gap others =>
    have h := tokenWarning_announces gap.1 gap.2
    exact ⟨_, rfl, h, fun other hother => hother.unique h⟩
  | nil =>
    cases flow.unresolved settings with
    | nil => rfl
    | cons read others =>
      have h := unresolvedWarning_announces flow.registry read.1 read.2
      exact ⟨_, rfl, h, fun other hother => hother.unique h⟩

end FlowScript
