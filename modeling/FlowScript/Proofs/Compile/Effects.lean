import FlowScript.Compile.Basic

/-! What a compilation does besides giving its result: it registers bindings and meets path tokens
without parameters. The sequence of both does not depend on the strictness, which only decides how
the sequence is played. Events below the level of a warning are left out. -/

namespace FlowScript

def warnings (log : Array Event) : List Event := log.toList.filter (·.level = .warn)

theorem warnings_push_warn (log : Array Event) {event : Event} (h : event.level = .warn) :
    warnings (log.push event) = warnings log ++ [event] := by
  simp [warnings, h]

theorem warnings_push_other (log : Array Event) {event : Event} (h : event.level ≠ .warn) :
    warnings (log.push event) = warnings log := by
  simp [warnings, h]

def tokenMessage : String := "endpoint token has no params entry, left as-is"

def tokenWarning (ref : StepRef) (token : String) : Event :=
  ⟨.warn, tokenMessage, [("step", ref.display), ("token", token)]⟩

inductive Effect where
  | bind (binding : Binding)
  | gap (ref : StepRef) (token : String)

namespace Effect

structure Trail where
  registry : Registry
  warnings : List Event

def trail (session : Session) : Trail := ⟨session.registry, warnings session.log⟩

def play (strictness : Strictness) : List Effect → Trail → Except CompileError Unit × Trail
  | [], before => (.ok (), before)
  | .bind binding :: rest, before =>
    play strictness rest { before with registry := before.registry.register binding }
  | .gap ref token :: rest, before =>
    match strictness with
    | .strict => (.error (.unresolvedPathToken ref token), before)
    | .permissive =>
      play strictness rest { before with warnings := before.warnings ++ [tokenWarning ref token] }

theorem play_append (strictness : Strictness) (first rest : List Effect) (before : Trail) :
    play strictness (first ++ rest) before =
      match play strictness first before with
      | (.ok (), later) => play strictness rest later
      | (.error error, later) => (.error error, later) := by
  induction first generalizing before with
  | nil => rfl
  | cons effect first ih =>
    cases effect with
    | bind binding => exact ih _
    | gap ref token =>
      cases strictness with
      | strict => rfl
      | permissive => exact ih _

def gaps (effects : List Effect) : List (StepRef × String) :=
  effects.filterMap fun
    | .bind _ => none
    | .gap ref token => some (ref, token)

def bindings (effects : List Effect) : List Binding :=
  effects.filterMap fun
    | .bind binding => some binding
    | .gap _ _ => none

@[simp] theorem gaps_append (xs ys : List Effect) : gaps (xs ++ ys) = gaps xs ++ gaps ys :=
  List.filterMap_append

@[simp] theorem gaps_map_gap (ref : StepRef) (tokens : List String) :
    gaps (tokens.map (.gap ref)) = tokens.map (ref, ·) := by
  unfold gaps
  rw [List.filterMap_map]
  show tokens.filterMap (some ∘ (ref, ·)) = tokens.map (ref, ·)
  rw [List.filterMap_eq_map]

theorem play_permissive (effects : List Effect) (before : Trail) :
    play .permissive effects before =
      (.ok (), ⟨(bindings effects).foldl Registry.register before.registry,
        before.warnings ++ (gaps effects).map fun gap => tokenWarning gap.1 gap.2⟩) := by
  induction effects generalizing before with
  | nil => simp [play, bindings, gaps]
  | cons effect rest ih =>
    cases effect with
    | bind binding => exact ih _
    | gap ref token =>
      rw [play, ih]
      simp [bindings, gaps]

theorem play_strict_of_gaps_nil {effects : List Effect} (h : gaps effects = []) (before : Trail) :
    play .strict effects before = play .permissive effects before := by
  induction effects generalizing before with
  | nil => rfl
  | cons effect rest ih =>
    cases effect with
    | bind binding => exact ih h _
    | gap ref token => simp [gaps] at h

theorem play_strict_of_gaps_cons {effects : List Effect} {ref : StepRef} {token : String}
    {others : List (StepRef × String)} (h : gaps effects = (ref, token) :: others)
    (before : Trail) :
    (play .strict effects before).1 = .error (.unresolvedPathToken ref token) := by
  induction effects generalizing before with
  | nil => simp [gaps] at h
  | cons effect rest ih =>
    cases effect with
    | bind binding => exact ih h _
    | gap ref' token' =>
      obtain ⟨⟨rfl, rfl⟩, -⟩ : (ref' = ref ∧ token' = token) ∧ gaps rest = others := by
        simpa [gaps] using h
      rfl

end Effect

open Effect

namespace Compile

variable {α β : Type} {settings : Settings}

/-- Under the settings, and whatever their strictness, the compilation gives `a` and has the
effects, unless they end it. -/
def Performs (compile : Compile α) (settings : Settings) (a : α) (effects : List Effect) : Prop :=
  ∀ strictness session,
    (compile.runFrom { settings with strictness } session).1 =
      (play strictness effects (trail session)).1.map (fun _ => a) ∧
    trail (compile.runFrom { settings with strictness } session).2 =
      (play strictness effects (trail session)).2

theorem Performs.eq_of_ok {compile : Compile α} {a b : α} {effects : List Effect}
    {session later : Session} (h : compile.Performs settings a effects)
    (hrun : compile.runFrom settings session = (.ok b, later)) : b = a := by
  have hresult := (h settings.strictness session).1
  rw [show { settings with strictness := settings.strictness } = settings from rfl, hrun] at hresult
  cases hplay : (play settings.strictness effects (trail session)).1 with
  | error error => rw [hplay] at hresult; cases hresult
  | ok _ => rw [hplay] at hresult; exact Except.ok.inj hresult

theorem exists_runFrom_eq_ok {compile : Compile α} {session : Session}
    (h : (compile.runFrom settings session).1.isOk) :
    ∃ a later, compile.runFrom settings session = (.ok a, later) := by
  cases hrun : compile.runFrom settings session with
  | mk result later =>
    cases result with
    | error error => rw [hrun] at h; cases h
    | ok a => exact ⟨a, later, rfl⟩

theorem performs_pure (a : α) : Performs (pure a) settings a [] :=
  fun _ _ => ⟨rfl, rfl⟩

theorem Performs.bind {first : Compile α} {a : α} {b : β} {xs ys : List Effect}
    (hfirst : first.Performs settings a xs) (next : α → Compile β)
    (hnext : (next a).Performs settings b ys) :
    (first >>= next).Performs settings b (xs ++ ys) := by
  intro strictness session
  have h := hfirst strictness session
  rw [runFrom_bind, play_append]
  generalize first.runFrom { settings with strictness } session = run at h ⊢
  generalize play strictness xs (trail session) = played at h ⊢
  obtain ⟨result, later⟩ := run
  obtain ⟨error | ⟨⟩, left⟩ := played
  · obtain ⟨hresult, htrail⟩ : result = .error error ∧ trail later = left := h
    subst hresult htrail
    exact ⟨rfl, rfl⟩
  · obtain ⟨hresult, htrail⟩ : result = .ok a ∧ trail later = left := h
    subst hresult htrail
    exact hnext strictness later

theorem Performs.andThen {first : Compile Unit} {next : Compile β} {b : β} {xs ys : List Effect}
    (hfirst : first.Performs settings () xs) (hnext : next.Performs settings b ys) :
    (first >>= fun _ => next).Performs settings b (xs ++ ys) :=
  hfirst.bind _ hnext

theorem Performs.bind_pure {compile : Compile α} {a : α} {effects : List Effect} (f : α → β)
    (h : compile.Performs settings a effects) :
    (compile >>= fun a => pure (f a)).Performs settings (f a) effects := by
  have hbind := h.bind (fun a => pure (f a)) (performs_pure (f a))
  rwa [List.append_nil] at hbind

theorem performs_read {next : Settings → Compile β} {b : β} {effects : List Effect}
    (h : ∀ strictness, (next { settings with strictness }).Performs settings b effects) :
    (read >>= next : Compile β).Performs settings b effects := by
  intro strictness session
  exact h strictness strictness session

theorem performs_get {next : Session → Compile β} {b : β} {effects : List Effect}
    (h : ∀ session, (next session).Performs settings b effects) :
    (get >>= next : Compile β).Performs settings b effects := by
  intro strictness session
  exact h session strictness session

theorem performs_report {event : Event} (h : event.level ≠ .warn) :
    (report event).Performs settings () [] := by
  intro strictness session
  exact ⟨rfl, congrArg (Trail.mk _) (warnings_push_other _ h)⟩

theorem Performs.reporting {compile : Compile α} {a : α} {effects : List Effect} {event : α → Event}
    (f : α → β) (hevent : (event a).level ≠ .warn) (h : compile.Performs settings a effects) :
    (compile >>= fun a => report (event a) >>= fun _ => pure (f a)).Performs settings (f a)
      effects := by
  have hreport : (report (event a) >>= fun _ => pure (f a)).Performs settings (f a) [] :=
    (performs_report hevent).andThen (performs_pure (f a))
  have hbind := h.bind (fun a => report (event a) >>= fun _ => pure (f a)) hreport
  rwa [List.append_nil] at hbind

theorem performs_register (binding : Binding) :
    (register binding).Performs settings () [.bind binding] :=
  fun _ _ => ⟨rfl, rfl⟩

theorem performs_forM {f : α → Compile Unit} {effects : α → List Effect} (all : List α)
    (h : ∀ a, (f a).Performs settings () (effects a)) :
    (all.forM f).Performs settings () (all.flatMap effects) := by
  induction all with
  | nil => exact performs_pure ()
  | cons a rest ih =>
    rw [List.flatMap_cons]
    exact (h a).andThen ih

end Compile

end FlowScript
