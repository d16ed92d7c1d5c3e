import FlowScript.Proofs.Script.Interleaving

/-! The assignments of a script with the values that they store, in the order of execution. -/

namespace FlowScript

mutual

/-- The slots that the code of an expression assigns, each with its value. -/
def Expr.stores : Expr → List (String × Expr)
  | .str _ => []
  | .code _ => []
  | .ident _ => []
  | .json _ => []
  | .object entries => entriesStores entries
  | .call _ args => exprsStores args
  | .arrow _ body => body.stores
  | .function _ body => stmtsStores body

/-- A value is evaluated, with all it assigns, before it is stored. -/
def Stmt.stores : Stmt → List (String × Expr)
  | .raw _ => []
  | .const _ value => value.stores
  | .exportConst _ value => value.stores
  | .assign slot value => value.stores ++ [(slot, value)]
  | .expr value => value.stores
  | .ret value => value.stores
  | .function _ _ body => stmtsStores body

def entriesStores : List (String × Expr) → List (String × Expr)
  | [] => []
  | (_, value) :: rest => value.stores ++ entriesStores rest

def exprsStores : List Expr → List (String × Expr)
  | [] => []
  | value :: rest => value.stores ++ exprsStores rest

def stmtsStores : List Stmt → List (String × Expr)
  | [] => []
  | stmt :: rest => stmt.stores ++ stmtsStores rest

end

def Script.stores (script : Script) : List (SectionKind × String × Expr) :=
  SectionKind.runtimeOrder.flatMap fun kind =>
    match script.find? kind with
    | some sect => (stmtsStores sect.body).map (sect.kind, ·)
    | none => []

theorem stmtsStores_append (xs ys : List Stmt) :
    stmtsStores (xs ++ ys) = stmtsStores xs ++ stmtsStores ys := by
  induction xs with
  | nil => rfl
  | cons stmt rest ih => rw [List.cons_append, stmtsStores, stmtsStores, ih, List.append_assoc]

mutual

theorem Expr.assignedNames_varEvents : (e : Expr) →
    assignedNames e.varEvents = e.stores.map Prod.fst
  | .str t => assignedNames_map_used t.varNames
  | .code t => assignedNames_map_used t.varNames
  | .ident _ => rfl
  | .json _ => rfl
  | .object entries => assignedNames_entriesVarEvents entries
  | .call _ args => assignedNames_exprsVarEvents args
  | .arrow _ body => body.assignedNames_varEvents
  | .function _ body => assignedNames_stmtsVarEvents body

theorem Stmt.assignedNames_varEvents : (stmt : Stmt) →
    assignedNames stmt.varEvents = stmt.stores.map Prod.fst
  | .raw _ => rfl
  | .const _ value => value.assignedNames_varEvents
  | .exportConst _ value => value.assignedNames_varEvents
  | .assign slot value => by
    rw [Stmt.varEvents, assignedNames_append, value.assignedNames_varEvents, Stmt.stores,
      List.map_append]
    rfl
  | .expr value => value.assignedNames_varEvents
  | .ret value => value.assignedNames_varEvents
  | .function _ _ body => assignedNames_stmtsVarEvents body

theorem assignedNames_entriesVarEvents : (entries : List (String × Expr)) →
    assignedNames (entriesVarEvents entries) = (entriesStores entries).map Prod.fst
  | [] => rfl
  | (_, value) :: rest => by
    rw [entriesVarEvents, assignedNames_append, value.assignedNames_varEvents,
      assignedNames_entriesVarEvents rest, entriesStores, List.map_append]

theorem assignedNames_exprsVarEvents : (exprs : List Expr) →
    assignedNames (exprsVarEvents exprs) = (exprsStores exprs).map Prod.fst
  | [] => rfl
  | value :: rest => by
    rw [exprsVarEvents, assignedNames_append, value.assignedNames_varEvents,
      assignedNames_exprsVarEvents rest, exprsStores, List.map_append]

theorem assignedNames_stmtsVarEvents : (stmts : List Stmt) →
    assignedNames (stmtsVarEvents stmts) = (stmtsStores stmts).map Prod.fst
  | [] => rfl
  | stmt :: rest => by
    rw [stmtsVarEvents, assignedNames_append, stmt.assignedNames_varEvents,
      assignedNames_stmtsVarEvents rest, stmtsStores, List.map_append]

end

theorem stmtsStores_of_reads {stmts : List Stmt} {names : List String}
    (h : stmtsVarEvents stmts = names.map .used) : stmtsStores stmts = [] := by
  have hnames := assignedNames_stmtsVarEvents stmts
  rw [h, assignedNames_map_used] at hnames
  exact List.map_eq_nil_iff.mp hnames.symm

def assignments (events : List (SectionKind × VarEvent)) : List (SectionKind × String) :=
  events.filterMap fun
    | (_, .used _) => none
    | (kind, .assigned name) => some (kind, name)

theorem mem_assignments {events : List (SectionKind × VarEvent)} {kind : SectionKind}
    {name : String} : (kind, name) ∈ assignments events ↔ (kind, .assigned name) ∈ events := by
  unfold assignments
  rw [List.mem_filterMap]
  constructor
  · rintro ⟨⟨other, slot | slot⟩, hevent, h⟩
    · cases h
    · cases h
      exact hevent
  · exact fun h => ⟨_, h, rfl⟩

theorem assignments_section (kind : SectionKind) (events : List VarEvent) :
    assignments (events.map (kind, ·)) = (assignedNames events).map (kind, ·) := by
  induction events with
  | nil => rfl
  | cons event rest ih =>
    cases event with
    | used name => exact ih
    | assigned name => exact congrArg ((kind, name) :: ·) ih

theorem Script.assignments_varEvents (script : Script) :
    assignments script.varEvents = script.stores.map fun store => (store.1, store.2.1) := by
  unfold varEvents stores
  rw [assignments, List.filterMap_flatMap, List.map_flatMap]
  congr 1
  funext kind
  cases script.find? kind with
  | none => rfl
  | some sect =>
    have hsection := assignments_section sect.kind (stmtsVarEvents sect.body)
    rw [assignedNames_stmtsVarEvents, List.map_map] at hsection
    rw [List.map_map]
    exact hsection

end FlowScript
