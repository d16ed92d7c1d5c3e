import FlowScript.Proofs.Script.Resolution
import Mathlib.Logic.Basic

/-! Execution of a script as far as its bag is concerned. A bag is known by the slots that are
defined in it; every look-up of a slot is recorded with what it met. -/

namespace FlowScript

structure Lookup where
  name : String
  defined : Bool

structure Machine where
  bag : List String
  lookups : List Lookup

namespace Machine

def start (bag : List String) : Machine := ⟨bag, []⟩

def read (machine : Machine) (name : String) : Machine :=
  { machine with lookups := machine.lookups ++ [⟨name, name ∈ machine.bag⟩] }

def define (machine : Machine) (slot : String) : Machine :=
  { machine with bag := slot :: machine.bag }

def failures (machine : Machine) : List String :=
  (machine.lookups.filter (!·.defined)).map (·.name)

end Machine

def Template.exec (t : Template) (machine : Machine) : Machine :=
  t.varNames.foldl Machine.read machine

mutual

/-- Evaluates an expression. The body of a function is executed where the function stands. -/
def Expr.exec : Expr → Machine → Machine
  | .str t, machine => t.exec machine
  | .code t, machine => t.exec machine
  | .ident _, machine => machine
  | .json _, machine => machine
  | .object entries, machine => execEntries entries machine
  | .call _ args, machine => execArgs args machine
  | .arrow _ body, machine => body.exec machine
  | .function _ body, machine => execStmts body machine

/-- Executes a statement. An assignment evaluates its value before it defines its slot. -/
def Stmt.exec : Stmt → Machine → Machine
  | .raw _, machine => machine
  | .const _ value, machine => value.exec machine
  | .exportConst _ value, machine => value.exec machine
  | .assign slot value, machine => (value.exec machine).define slot
  | .expr value, machine => value.exec machine
  | .ret value, machine => value.exec machine
  | .function _ _ body, machine => execStmts body machine

def execEntries : List (String × Expr) → Machine → Machine
  | [], machine => machine
  | (_, value) :: rest, machine => execEntries rest (value.exec machine)

def execArgs : List Expr → Machine → Machine
  | [], machine => machine
  | arg :: rest, machine => execArgs rest (arg.exec machine)

def execStmts : List Stmt → Machine → Machine
  | [], machine => machine
  | stmt :: rest, machine => execStmts rest (stmt.exec machine)

end

namespace Script

def execSection (script : Script) (kind : SectionKind) (bag : List String) : Machine :=
  execStmts (script.bodyOf kind) (.start bag)

def handedOn (script : Script) : List String :=
  (script.execSection .setup []).bag

/-- The look-ups in vain of a whole run, in the order of execution. The main function and the
teardown each start from what `setup` hands on. -/
def undefinedReads (script : Script) : List (SectionKind × String) :=
  let failuresFrom (bag : List String) (kind : SectionKind) :=
    (script.execSection kind bag).failures.map (kind, ·)
  failuresFrom [] .imports ++ failuresFrom [] .options ++ failuresFrom [] .summary ++
    failuresFrom [] .setup ++ failuresFrom script.handedOn .main ++
    failuresFrom script.handedOn .teardown

end Script

namespace Machine

def step (machine : Machine) : VarEvent → Machine
  | .used name => machine.read name
  | .assigned slot => machine.define slot

end Machine

theorem Template.exec_eq (t : Template) (machine : Machine) :
    t.exec machine = t.varEvents.foldl Machine.step machine := by
  unfold exec varEvents
  rw [List.foldl_map]
  rfl

mutual

theorem Expr.exec_eq (e : Expr) (machine : Machine) :
    e.exec machine = e.varEvents.foldl Machine.step machine := by
  cases e with
  | str t => exact t.exec_eq machine
  | code t => exact t.exec_eq machine
  | ident name => rfl
  | json value => rfl
  | object entries => exact execEntries_eq entries machine
  | call callee args => exact execArgs_eq args machine
  | arrow params body => exact body.exec_eq machine
  | function params body => exact execStmts_eq body machine

theorem Stmt.exec_eq (s : Stmt) (machine : Machine) :
    s.exec machine = s.varEvents.foldl Machine.step machine := by
  cases s with
  | raw line => rfl
  | const name value => exact value.exec_eq machine
  | exportConst name value => exact value.exec_eq machine
  | assign slot value =>
    rw [Stmt.exec, Stmt.varEvents, List.foldl_append, value.exec_eq machine]
    rfl
  | expr value => exact value.exec_eq machine
  | ret value => exact value.exec_eq machine
  | function how params body => exact execStmts_eq body machine

theorem execEntries_eq (entries : List (String × Expr)) (machine : Machine) :
    execEntries entries machine = (entriesVarEvents entries).foldl Machine.step machine := by
  match entries with
  | [] => rfl
  | (key, value) :: rest =>
    rw [execEntries, entriesVarEvents, List.foldl_append, value.exec_eq machine]
    exact execEntries_eq rest _

theorem execArgs_eq (args : List Expr) (machine : Machine) :
    execArgs args machine = (exprsVarEvents args).foldl Machine.step machine := by
  match args with
  | [] => rfl
  | arg :: rest =>
    rw [execArgs, exprsVarEvents, List.foldl_append, arg.exec_eq machine]
    exact execArgs_eq rest _

theorem execStmts_eq (stmts : List Stmt) (machine : Machine) :
    execStmts stmts machine = (stmtsVarEvents stmts).foldl Machine.step machine := by
  match stmts with
  | [] => rfl
  | stmt :: rest =>
    rw [execStmts, stmtsVarEvents, List.foldl_append, stmt.exec_eq machine]
    exact execStmts_eq rest _

end

namespace Machine

theorem failures_read (machine : Machine) (name : String) :
    (machine.read name).failures =
      machine.failures ++ if name ∈ machine.bag then [] else [name] := by
  by_cases h : name ∈ machine.bag <;> simp [failures, read, h]

theorem failures_define (machine : Machine) (slot : String) :
    (machine.define slot).failures = machine.failures := rfl

theorem mem_bag_foldl {events : List VarEvent} {machine : Machine} {name : String} :
    name ∈ (events.foldl step machine).bag ↔ name ∈ machine.bag ∨ .assigned name ∈ events := by
  induction events generalizing machine with
  | nil => simp
  | cons event rest ih =>
    rw [List.foldl_cons, ih]
    cases event with
    | used other => simp [step, read]
    | assigned slot =>
      simp only [step, define, List.mem_cons, VarEvent.assigned.injEq]
      rw [or_assoc, or_left_comm]

theorem failures_foldl {kind : SectionKind} (events : List VarEvent) {machine : Machine}
    {assigned : List (SectionKind × String)}
    (hvisible : ∀ name, isVisible assigned kind name = true ↔ name ∈ machine.bag) :
    (events.foldl step machine).failures.map (kind, ·) =
      machine.failures.map (kind, ·) ++ unresolvedReads assigned (events.map (kind, ·)) := by
  induction events generalizing machine assigned with
  | nil => simp [unresolvedReads]
  | cons event rest ih =>
    rw [List.foldl_cons, List.map_cons]
    cases event with
    | used name =>
      have hread : ∀ other, isVisible assigned kind other = true ↔
          other ∈ (machine.read name).bag := hvisible
      rw [step, ih hread, failures_read, unresolvedReads]
      -- The look-up fails in the machine exactly if the name is not visible.
      by_cases h : name ∈ machine.bag
      · simp [h, (hvisible name).mpr h]
      · have hfalse : ¬ isVisible assigned kind name = true := fun hv => h ((hvisible name).mp hv)
        simp [h, hfalse]
    | assigned slot =>
      have hdefine : ∀ name, isVisible ((kind, slot) :: assigned) kind name = true ↔
          name ∈ (machine.define slot).bag := by
        intro name
        rw [isVisible_cons, hvisible]
        simp [define]
      rw [step, ih hdefine, failures_define, unresolvedReads]

end Machine

namespace Script

theorem failures_execSection {script : Script} {kind : SectionKind} {bag : List String}
    {assigned : List (SectionKind × String)}
    (hvisible : ∀ name, isVisible assigned kind name = true ↔ name ∈ bag) :
    (script.execSection kind bag).failures.map (kind, ·) =
      unresolvedReads assigned ((stmtsVarEvents (script.bodyOf kind)).map (kind, ·)) := by
  unfold execSection
  rw [execStmts_eq]
  exact Machine.failures_foldl _ hvisible

theorem mem_handedOn {script : Script} {name : String} :
    name ∈ script.handedOn ↔ .assigned name ∈ stmtsVarEvents (script.bodyOf .setup) := by
  unfold handedOn execSection
  rw [execStmts_eq, Machine.mem_bag_foldl]
  simp [Machine.start]

theorem unresolved_eq_undefinedReads {script : Script}
    (h : (script.sections.map (·.kind)).Nodup) :
    script.unresolved = script.undefinedReads := by
  unfold unresolved undefinedReads
  rw [varEvents_eq h]
  simp only [SectionKind.runtimeOrder, List.flatMap_cons, List.flatMap_nil, List.append_nil,
    unresolvedReads_append, ← List.append_assoc]
  refine congrArg₂ (· ++ ·) (congrArg₂ (· ++ ·) (congrArg₂ (· ++ ·) (congrArg₂ (· ++ ·)
    (congrArg₂ (· ++ ·) ?imports ?options) ?summary) ?setup) ?main) ?teardown
  all_goals
    refine (failures_execSection fun name => ?_).symm
    simp [isVisible_iff, mem_assignedAfter, SectionKind.inheritsFrom, mem_handedOn]

end Script

/-- Resolution of reads is sound and complete for execution: what it leaves unresolved are the
look-ups in vain, and strict mode fails exactly if there is one, with the name of the first. -/
theorem resolveReads_sound_complete (script : Script) (registry : Registry)
    (h : (script.sections.map (·.kind)).Nodup) :
    script.unresolved = script.undefinedReads ∧
    ((resolveReads registry .strict script.unresolved).isOk ↔ script.undefinedReads = []) ∧
    ∀ kind name later, script.undefinedReads = (kind, name) :: later →
      resolveReads registry .strict script.unresolved = .error (.unresolvedVariable name) := by
  rw [script.unresolved_eq_undefinedReads h]
  refine ⟨rfl, ?_, ?_⟩
  · cases script.undefinedReads with
    | nil => simp [resolveReads, Except.isOk, Except.toBool]
    | cons read later => simp [resolveReads, Except.isOk, Except.toBool]
  · intro kind name later hreads
    rw [hreads]
    rfl

def handoverScript : Script where
  sections := [
    ⟨.setup, [.function (.named "setup") [] [.assign "token" (.code (.literal "req_0.body"))]]⟩,
    ⟨.teardown, [.function (.named "teardown") ["bag"] [.expr (.str ⟨[.var "token", .var "id"]⟩)]]⟩,
    ⟨.main, [.function .default ["bag"] [.expr (.call "k6.group" [.text "users", .function [] [
      .const "req_0_0" (.call "http.get" [.str ⟨[.text "/", .var "token"]⟩]),
      .assign "id" (.code ⟨[.text "req_0_0.", .var "token"]⟩),
      .expr (.object [("id", .str (.ofVar "id"))])]])]]⟩]

theorem resolveReads_handoverScript :
    (handoverScript.sections.map (·.kind)).Nodup ∧
    handoverScript.undefinedReads = [(.teardown, "id")] ∧
    resolveReads .empty .strict handoverScript.unresolved = .error (.unresolvedVariable "id") := by
  have hkinds : (handoverScript.sections.map (·.kind)).Nodup := by decide
  have hreads : handoverScript.undefinedReads = [(.teardown, "id")] := by decide
  exact ⟨hkinds, hreads,
    (resolveReads_sound_complete handoverScript .empty hkinds).2.2 _ _ _ hreads⟩

end FlowScript
