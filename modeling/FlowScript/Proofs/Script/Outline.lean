import FlowScript.Script.Render

/-! What a script has the runtime do, with all else left out: the functions that it exports, its
groups, and the requests, checks and assignments in them, in their order and their nesting. -/

namespace FlowScript

inductive Mark where
  /-- A request, with the name of the constant that keeps its result. -/
  | request (kept : Option String) (callee : String)
  | check (subject : Option Expr) (labels : List String)
  | store (slot : String) (value : Expr)
  | group (title : Option Expr) (inner : List Mark)
  | function (how : Export) (inner : List Mark)

def isRequest (callee : String) : Bool :=
  "http.".toList.isPrefixOf callee.toList

def checkLabels : List Expr → List String
  | _ :: .object entries :: _ => entries.map Prod.fst
  | _ => []

mutual

def Expr.outline (kept : Option String) : Expr → List Mark
  | .str _ => []
  | .code _ => []
  | .ident _ => []
  | .json _ => []
  | .object entries => entriesOutline entries
  | .call callee args =>
    if callee = "k6.group" then [.group args.head? (exprsOutline args)]
    else if callee = "k6.check" then exprsOutline args ++ [.check args.head? (checkLabels args)]
    else if isRequest callee then exprsOutline args ++ [.request kept callee]
    else exprsOutline args
  | .arrow _ body => body.outline none
  | .function _ body => stmtsOutline body

def Stmt.outline : Stmt → List Mark
  | .raw _ => []
  | .const name value => value.outline (some name)
  | .exportConst _ value => value.outline none
  | .assign slot value => value.outline none ++ [.store slot value]
  | .expr value => value.outline none
  | .ret value => value.outline none
  | .function how _ body => [.function how (stmtsOutline body)]

def entriesOutline : List (String × Expr) → List Mark
  | [] => []
  | (_, value) :: rest => value.outline none ++ entriesOutline rest

def exprsOutline : List Expr → List Mark
  | [] => []
  | value :: rest => value.outline none ++ exprsOutline rest

def stmtsOutline : List Stmt → List Mark
  | [] => []
  | stmt :: rest => stmt.outline ++ stmtsOutline rest

end

mutual

def Mark.results : Mark → List String
  | .request kept _ => kept.toList
  | .check _ _ => []
  | .store _ _ => []
  | .group _ inner => marksResults inner
  | .function _ inner => marksResults inner

def marksResults : List Mark → List String
  | [] => []
  | mark :: rest => mark.results ++ marksResults rest

end

def Script.outline (script : Script) (kind : SectionKind) : List Mark :=
  ((script.find? kind).map fun sect => stmtsOutline sect.body).getD []

theorem stmtsOutline_append (xs ys : List Stmt) :
    stmtsOutline (xs ++ ys) = stmtsOutline xs ++ stmtsOutline ys := by
  induction xs with
  | nil => rfl
  | cons stmt rest ih =>
    rw [List.cons_append, stmtsOutline, stmtsOutline, ih, List.append_assoc]

@[simp] theorem marksResults_append (xs ys : List Mark) :
    marksResults (xs ++ ys) = marksResults xs ++ marksResults ys := by
  induction xs with
  | nil => rfl
  | cons mark rest ih =>
    rw [List.cons_append, marksResults, marksResults, ih, List.append_assoc]

theorem marksResults_map_store {α : Type} (slot : α → String) (value : α → Expr) (all : List α) :
    marksResults (all.map fun a => .store (slot a) (value a)) = [] := by
  induction all with
  | nil => rfl
  | cons a rest ih => exact ih

mutual

def Expr.isData : Expr → Bool
  | .str _ => true
  | .code _ => true
  | .ident _ => true
  | .json _ => true
  | .object entries => entriesAreData entries
  | .call _ _ => false
  | .arrow _ _ => false
  | .function _ _ => false

def entriesAreData : List (String × Expr) → Bool
  | [] => true
  | (_, value) :: rest => value.isData && entriesAreData rest

end

theorem entriesAreData_append (xs ys : List (String × Expr)) :
    entriesAreData (xs ++ ys) = (entriesAreData xs && entriesAreData ys) := by
  induction xs with
  | nil => rfl
  | cons entry rest ih => rw [List.cons_append, entriesAreData, entriesAreData, ih, Bool.and_assoc]

theorem entriesAreData_iff {entries : List (String × Expr)} :
    entriesAreData entries ↔ ∀ entry ∈ entries, entry.2.isData := by
  induction entries with
  | nil => simp [entriesAreData]
  | cons entry rest ih => simp [entriesAreData, ih]

mutual

theorem Expr.outline_of_isData (kept : Option String) :
    (e : Expr) → e.isData → e.outline kept = []
  | .str _, _ => rfl
  | .code _, _ => rfl
  | .ident _, _ => rfl
  | .json _, _ => rfl
  | .object entries, h => entriesOutline_of_data entries h

theorem entriesOutline_of_data :
    (entries : List (String × Expr)) → entriesAreData entries → entriesOutline entries = []
  | [], _ => rfl
  | (_, value) :: rest, h => by
    obtain ⟨hvalue, hrest⟩ := Bool.and_eq_true_iff.mp h
    rw [entriesOutline, value.outline_of_isData none hvalue, entriesOutline_of_data rest hrest]
    rfl

end

theorem exprsOutline_of_isData {exprs : List Expr} (h : ∀ e ∈ exprs, e.isData) :
    exprsOutline exprs = [] := by
  induction exprs with
  | nil => rfl
  | cons e rest ih =>
    obtain ⟨he, hrest⟩ := List.forall_mem_cons.mp h
    rw [exprsOutline, e.outline_of_isData none he, ih hrest]
    rfl

end FlowScript
