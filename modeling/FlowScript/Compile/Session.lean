import FlowScript.Compile.Registry
import FlowScript.Error
import FlowScript.Event
import FlowScript.Settings

/-!
The state of a compilation: the variables registered and the events reported so far. Both outlive a
step that fails.
-/

namespace FlowScript

structure Session where
  registry : Registry
  log : Array Event

def Session.start : Session := ⟨.empty, #[]⟩

/-- A compilation reads the settings, may fail, and leaves its session behind in either case. -/
abbrev Compile := ReaderT Settings (ExceptT CompileError (StateM Session))

namespace Compile

def report (event : Event) : Compile Unit :=
  modify fun session => { session with log := session.log.push event }

def register (binding : Binding) : Compile Unit :=
  modify fun session => { session with registry := session.registry.register binding }

def runFrom {α : Type} (compile : Compile α) (settings : Settings) (session : Session) :
    Except CompileError α × Session :=
  (ReaderT.run compile settings).run.run session

@[simp] theorem runFrom_pure {α : Type} (a : α) (settings : Settings) (session : Session) :
    (pure a : Compile α).runFrom settings session = (.ok a, session) := rfl

theorem runFrom_bind {α β : Type} (first : Compile α) (next : α → Compile β)
    (settings : Settings) (session : Session) :
    (first >>= next).runFrom settings session =
      match first.runFrom settings session with
      | (.ok a, later) => (next a).runFrom settings later
      | (.error error, later) => (.error error, later) := by
  unfold runFrom ReaderT.run ExceptT.run StateT.run
  simp only [bind, ReaderT.bind, ExceptT.bind, ExceptT.mk, StateT.bind, ExceptT.bindCont]
  rcases first settings session with ⟨error | a, later⟩ <;> rfl

@[simp] theorem runFrom_report (event : Event) (settings : Settings) (session : Session) :
    (report event).runFrom settings session =
      (.ok (), { session with log := session.log.push event }) := rfl

@[simp] theorem runFrom_register (binding : Binding) (settings : Settings) (session : Session) :
    (register binding).runFrom settings session =
      (.ok (), { session with registry := session.registry.register binding }) := rfl

end Compile

end FlowScript
