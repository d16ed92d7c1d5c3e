import FlowScript.Proofs.Compile.CallShape
import FlowScript.Proofs.Compile.Producers

/-! Steps compiled one after the other in one session, in any order and with failures between them.
A step that fails leaves the registry as it was, a step that compiles adds its own bindings behind
those that are there, and neither depends on the steps before. -/

namespace FlowScript

open Compile Effect

theorem Registry.IsIndexed.get?_foldl_register {registry : Registry} (h : registry.IsIndexed)
    (bindings : List Binding) {name : String} {binding : Binding}
    (hname : registry.get? name = some binding) :
    (bindings.foldl Registry.register registry).get? name = some binding := by
  rw [h.get?_eq] at hname
  rw [(isIndexed_foldl_register h bindings).get?_eq, toList_entries_foldl_register,
    List.find?_append, hname]
  rfl

structure StepCall where
  step : Step
  ref : StepRef

namespace StepCall

variable {settings : Settings}

def run (call : StepCall) (settings : Settings) (session : Session) :
    Except CompileError (List Stmt) × Session :=
  (call.step.compile call.ref).runFrom settings session

def result (call : StepCall) (settings : Settings) : Except CompileError (List Stmt) :=
  (call.run settings .start).1

def bindings (call : StepCall) : List Binding :=
  call.step.bindings call.ref

inductive Checks (call : StepCall) : List Stmt → Prop
  | none (hchecks : ∀ response, call.step.response = some response → response.checks = []) :
      Checks call []
  | some {response : Response} (hresponse : call.step.response = some response)
      (hchecks : response.checks ≠ []) :
      Checks call [.expr (.call "k6.check" [.ident call.ref.resultVar,
        .object (response.checks.map fun check =>
          (check.label, .arrow ["r"] (.code check.condition)))])]

inductive Pauses (call : StepCall) : List Stmt → Prop
  | none (hsleep : call.step.sleep = none) : Pauses call []
  | some {seconds : Binary64} (hsleep : call.step.sleep = some seconds) :
      Pauses call [.expr (.call "k6.sleep" [.ident (secondsText seconds)])]

/-- The call that sends the request, then the statements of the checks, then an assignment for each
binding of the step, then the pause. -/
inductive IsBody (call : StepCall) : List Stmt → Prop
  | parts {positional : Option Expr} {entries : List (String × Expr)} {arguments : List Expr}
      {checks pause : List Stmt}
      (hrequest : call.step.request.Shapes (.str call.step.request.urlTemplate) positional entries
        arguments)
      (hchecks : call.Checks checks) (hpause : call.Pauses pause) :
      IsBody call (.const call.ref.resultVar
          (.call ("http." ++ call.step.request.method.lower) arguments) ::
        (checks ++ call.step.assignments.map (fun assignment =>
          .assign assignment.name (.code (extraction call.ref.resultVar assignment.path))) ++ pause))

/-- What a call may do to a registry. It fails on the first path token without a parameter, in
strict mode only, and then the registry is the one before. Otherwise the bindings of the step are
appended, and a name that had a producer keeps it. -/
inductive Outcome (call : StepCall) (settings : Settings) (before : Registry) :
    Except CompileError (List Stmt) → Registry → Prop
  | failed {token : String} (hstrict : settings.strictness = .strict)
      (htoken : call.step.request.missingTokens.head? = some token) :
      Outcome call settings before (.error (.unresolvedPathToken call.ref token)) before
  | compiled {stmts : List Stmt} {after : Registry}
      (htokens : settings.strictness = .permissive ∨ call.step.request.missingTokens = [])
      (hbody : call.IsBody stmts)
      (hentries : after.entries.toList = before.entries.toList ++ call.bindings)
      (hkept : ∀ name binding, before.get? name = some binding → after.get? name = some binding) :
      Outcome call settings before (.ok stmts) after

end StepCall

/-- The session behind calls in order. A call that fails does not end them. -/
def sessionBehind (settings : Settings) (calls : List StepCall) : Session :=
  calls.foldl (fun session call => (call.run settings session).2) .start

namespace StepCall

variable {settings : Settings}

theorem checks_checkStmts (call : StepCall) : call.Checks (call.step.checkStmts call.ref) := by
  unfold Step.checkStmts Step.checks
  cases hresponse : call.step.response with
  | none => exact .none fun response h => absurd (hresponse.symm.trans h) nofun
  | some response =>
    rw [Option.map_some, Option.getD_some]
    cases hchecks : response.checks with
    | nil =>
      refine .none fun other h => ?_
      obtain rfl := Option.some.inj (hresponse.symm.trans h)
      exact hchecks
    | cons check rest =>
      have hsome := Checks.some hresponse (hchecks ▸ List.cons_ne_nil check rest)
      rw [hchecks] at hsome
      exact hsome

theorem pauses_sleepStmts (call : StepCall) : call.Pauses call.step.sleepStmts := by
  unfold Step.sleepStmts
  cases hsleep : call.step.sleep with
  | none => exact .none hsleep
  | some seconds => exact .some hsleep

theorem isBody_stmts (call : StepCall) : call.IsBody (call.step.stmts call.ref) :=
  .parts (call.step.request.shapes_arguments _) call.checks_checkStmts call.pauses_sleepStmts

/-- The path tokens come first, so what fails has registered nothing. -/
theorem play_effects_strict {step : Step} {ref : StepRef} {token : String} {others : List String}
    (h : step.request.missingTokens = token :: others) (before : Trail) :
    play .strict (step.effects ref) before =
      (.error (.unresolvedPathToken ref token), before) := by
  rw [Step.effects, h]
  rfl

theorem run_eq (call : StepCall) (settings : Settings) (session : Session) :
    (call.run settings session).1 =
        (play settings.strictness (call.step.effects call.ref) (trail session)).1.map
          (fun _ => call.step.stmts call.ref) ∧
      (call.run settings session).2.registry =
        (play settings.strictness (call.step.effects call.ref) (trail session)).2.registry := by
  have hperforms : (call.step.compile call.ref).Performs settings (call.step.stmts call.ref)
      (call.step.effects call.ref) := call.step.performs_compile call.ref
  obtain ⟨hresult, htrail⟩ := hperforms settings.strictness session
  exact ⟨hresult, congrArg Trail.registry htrail⟩

theorem run_failed {call : StepCall} {token : String}
    (hstrict : settings.strictness = .strict)
    (htoken : call.step.request.missingTokens.head? = some token) (session : Session) :
    (call.run settings session).1 = .error (.unresolvedPathToken call.ref token) ∧
      (call.run settings session).2.registry = session.registry := by
  obtain ⟨others, htokens⟩ := List.head?_eq_some_iff.mp htoken
  obtain ⟨hresult, hregistry⟩ := call.run_eq settings session
  rw [hstrict, play_effects_strict htokens] at hresult hregistry
  exact ⟨hresult, hregistry⟩

theorem run_compiled {call : StepCall}
    (h : settings.strictness = .permissive ∨ call.step.request.missingTokens = [])
    (session : Session) :
    (call.run settings session).1 = .ok (call.step.stmts call.ref) ∧
      (call.run settings session).2.registry =
        call.bindings.foldl Registry.register session.registry := by
  have hplay : play settings.strictness (call.step.effects call.ref) (trail session) =
      play .permissive (call.step.effects call.ref) (trail session) := by
    -- Without a missing parameter nothing can fail, so the mode makes no difference.
    rcases h with hpermissive | hnil
    · rw [hpermissive]
    · cases hmode : settings.strictness with
      | permissive => rfl
      | strict => exact play_strict_of_gaps_nil (by rw [Step.gaps_effects, hnil]; rfl) _
  obtain ⟨hresult, hregistry⟩ := call.run_eq settings session
  rw [hplay, play_permissive] at hresult hregistry
  rw [Step.bindings_effects] at hregistry
  exact ⟨hresult, hregistry⟩

theorem fails_or_compiles (call : StepCall) (settings : Settings) :
    (∃ token, settings.strictness = .strict ∧
        call.step.request.missingTokens.head? = some token) ∨
      settings.strictness = .permissive ∨ call.step.request.missingTokens = [] := by
  cases hmode : settings.strictness with
  | permissive => exact .inr (.inl rfl)
  | strict =>
    cases htokens : call.step.request.missingTokens with
    | nil => exact .inr (.inr rfl)
    | cons token others => exact .inl ⟨token, rfl, rfl⟩

theorem run_fst (call : StepCall) (settings : Settings) (session : Session) :
    (call.run settings session).1 = call.result settings := by
  rcases call.fails_or_compiles settings with ⟨token, hstrict, htoken⟩ | h
  · exact (run_failed hstrict htoken session).1.trans (run_failed hstrict htoken _).1.symm
  · exact (run_compiled h session).1.trans (run_compiled h _).1.symm

theorem outcome_run (call : StepCall) {session : Session} (h : session.registry.IsIndexed) :
    call.Outcome settings session.registry (call.run settings session).1
      (call.run settings session).2.registry := by
  rcases call.fails_or_compiles settings with ⟨token, hstrict, htoken⟩ | htokens
  · obtain ⟨hresult, hregistry⟩ := run_failed hstrict htoken session
    rw [hresult, hregistry]
    exact .failed hstrict htoken
  · obtain ⟨hresult, hregistry⟩ := run_compiled htokens session
    rw [hresult, hregistry]
    exact .compiled htokens call.isBody_stmts (Registry.toList_entries_foldl_register _ _)
      fun _ _ hname => h.get?_foldl_register call.bindings hname

theorem registry_run (call : StepCall) (settings : Settings) (session : Session) :
    (call.run settings session).2.registry =
      (if (call.result settings).isOk then call.bindings else []).foldl Registry.register
        session.registry := by
  rw [← call.run_fst settings session]
  rcases call.fails_or_compiles settings with ⟨token, hstrict, htoken⟩ | htokens
  · obtain ⟨hresult, hregistry⟩ := run_failed hstrict htoken session
    rw [hresult, hregistry]
    rfl
  · obtain ⟨hresult, hregistry⟩ := run_compiled htokens session
    rw [hresult, hregistry]
    rfl

end StepCall

section Sequence

variable (settings : Settings)

/-- The bindings of the calls that succeed, in order. -/
def boundBy (calls : List StepCall) : List Binding :=
  (calls.filter fun call => (call.result settings).isOk).flatMap StepCall.bindings

theorem registry_sessionBehind (calls : List StepCall) :
    (sessionBehind settings calls).registry =
      (boundBy settings calls).foldl Registry.register .empty := by
  -- From the end, since the last call runs in the session behind all others.
  induction calls using List.reverseRecOn with
  | nil => rfl
  | append_singleton calls call ih =>
    have hlast : (sessionBehind settings (calls ++ [call])) =
        (call.run settings (sessionBehind settings calls)).2 := by
      simp [sessionBehind]
    have hbound : boundBy settings (calls ++ [call]) = boundBy settings calls ++
        if (call.result settings).isOk then call.bindings else [] := by
      cases hresult : (call.result settings).isOk <;> simp [boundBy, hresult]
    rw [hlast, call.registry_run, ih, hbound, List.foldl_append]

theorem isIndexed_sessionBehind (calls : List StepCall) :
    (sessionBehind settings calls).registry.IsIndexed := by
  rw [registry_sessionBehind]
  exact Registry.isIndexed_foldl_register Registry.isIndexed_empty _

/-- Whatever has been compiled in a session, its registry holds the bindings of the steps that
compiled. The next step gives the statements or the error that it gives in a session of its own, and
it either leaves the registry as it is or appends its bindings. -/
theorem stepCalls_atomic (earlier : List StepCall) (call : StepCall) :
    let session := sessionBehind settings earlier
    session.registry.entries.toList = boundBy settings earlier ∧
      (call.run settings session).1 = call.result settings ∧
      call.Outcome settings session.registry (call.run settings session).1
        (call.run settings session).2.registry := by
  refine ⟨?_, call.run_fst settings _, call.outcome_run (isIndexed_sessionBehind settings earlier)⟩
  rw [registry_sessionBehind, Registry.toList_entries_foldl_register]
  rfl

end Sequence

example :
    let calls : List StepCall := [
      ⟨bindingStep "/login" [⟨"token", ".token"⟩], .precondition 0⟩,
      ⟨bindingStep "/users/:id" [⟨"user", "$[0]"⟩], .item 0 1⟩,
      ⟨bindingStep "/renew" [⟨"token", " $.next "⟩], .item 0 0⟩]
    (sessionBehind { strictness := .strict } calls).registry.entries.toList =
      [⟨"token", .precondition 0, ".token"⟩, ⟨"token", .item 0 0, " $.next "⟩] := by
  decide +kernel

end FlowScript
