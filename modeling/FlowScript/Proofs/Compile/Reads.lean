import FlowScript.Proofs.Compile.Outcome
import FlowScript.Proofs.Template.Placeholders

/-! The variable events of compiled steps, in terms of the placeholders of their texts. They do not
depend on the place of a step. -/

namespace FlowScript

open Template (placeholders)

@[simp] theorem varEvents_parse (s : String) :
    (Template.parse s).varEvents = (placeholders s).map .used := by
  rw [Template.varEvents, Template.varNames_parse]

@[simp] theorem varEvents_text (s : String) : (Expr.text s).varEvents = [] := by
  change (Template.literal s).varNames.map VarEvent.used = []
  rw [Template.varNames_literal]
  rfl

@[simp] theorem stmtsVarEvents_append (xs ys : List Stmt) :
    stmtsVarEvents (xs ++ ys) = stmtsVarEvents xs ++ stmtsVarEvents ys := by
  induction xs with
  | nil => rfl
  | cons stmt rest ih => simp [stmtsVarEvents, ih]

@[simp] theorem entriesVarEvents_append (xs ys : List (String × Expr)) :
    entriesVarEvents (xs ++ ys) = entriesVarEvents xs ++ entriesVarEvents ys := by
  induction xs with
  | nil => rfl
  | cons entry rest ih =>
    obtain ⟨key, value⟩ := entry
    simp [entriesVarEvents, ih]

def valueReads (values : List Json) : List String :=
  values.flatMap fun value => placeholders value.plainText

theorem entriesVarEvents_map_valueEntry {α : Type} (key : α → String) (value : α → Json)
    (all : List α) :
    entriesVarEvents (all.map fun a => valueEntry (key a) (value a)) =
      (valueReads (all.map value)).map .used := by
  induction all with
  | nil => rfl
  | cons a rest ih =>
    rw [List.map_cons, entriesVarEvents.eq_def]
    simp only [valueEntry, Expr.varEvents, varEvents_parse, valueReads, List.map_cons,
      List.flatMap_cons, List.map_append] at ih ⊢
    rw [ih]

namespace Request

theorem entriesVarEvents_objectEntry (key : String) (entries : List (String × Expr)) :
    entriesVarEvents (objectEntry key entries) = entriesVarEvents entries := by
  cases entries with
  | nil => rfl
  | cons entry rest => simp [objectEntry, entriesVarEvents, Expr.varEvents]

def bearerReads (request : Request) : List String :=
  valueReads request.bearer?.toList

def headerReads (request : Request) : List String :=
  valueReads (request.headers.map (·.value))

def cookieReads (request : Request) : List String :=
  valueReads (request.cookies.map (·.value))

def bodyReads (request : Request) : List String :=
  valueReads ((request.body.getD []).map (·.2))

def urlReads (request : Request) : List String :=
  placeholders request.filled ++ valueReads (request.query.map (·.value))

theorem varNames_appendQuery (pairs : List Pair) (separator : String) (url : Template) :
    (appendQuery pairs separator url).varNames =
      url.varNames ++ valueReads (pairs.map (·.value)) := by
  induction pairs generalizing separator url with
  | nil => exact (List.append_nil _).symm
  | cons pair rest ih => simp [appendQuery, ih, valueReads]

theorem varNames_urlTemplate (request : Request) :
    request.urlTemplate.varNames = request.urlReads := by
  rw [urlTemplate, varNames_appendQuery, Template.varNames_parse,
    Template.placeholders_trimEnd_slash]
  rfl

theorem bearer?_eq_some_iff {request : Request} {value : Json} :
    request.bearer? = some value ↔
      ∃ datum others, request.auth = some ⟨.bearer, datum :: others⟩ ∧ datum.value = value := by
  unfold bearer?
  split
  · rename_i datum others hauth
    simp [hauth]
  · rename_i hauth
    simp only [reduceCtorEq, false_iff]
    rintro ⟨datum, others, h, -⟩
    exact hauth datum others h

theorem entriesVarEvents_bearerEntry (request : Request) :
    entriesVarEvents request.bearerEntry = request.bearerReads.map .used := by
  unfold bearerEntry bearerReads
  cases request.bearer? with
  | none => rfl
  | some value => simp [entriesVarEvents, Expr.varEvents, Template.varEvents, valueReads]

theorem entriesVarEvents_authEntry (request : Request) :
    entriesVarEvents request.authEntry = [] := by
  unfold authEntry
  split <;> simp [entriesVarEvents]

theorem entriesVarEvents_tagEntries (tags : List Tag) :
    entriesVarEvents (tags.flatMap tagEntries) = [] := by
  induction tags with
  | nil => rfl
  | cons tag rest ih =>
    rw [List.flatMap_cons, entriesVarEvents_append, ih]
    cases h : tag.stage <;> simp [tagEntries, h, entriesVarEvents]

theorem entriesVarEvents_timeoutEntry (request : Request) :
    entriesVarEvents request.timeoutEntry = [] := by
  unfold timeoutEntry
  cases request.timeout <;> simp [entriesVarEvents]

theorem entriesVarEvents_paramEntries (request : Request) (body : Option Expr) :
    entriesVarEvents (request.paramEntries body) =
      (request.bearerReads ++ request.headerReads ++ request.cookieReads).map .used ++
        (body.map Expr.varEvents).getD [] := by
  have hheaders : entriesVarEvents (request.headers.map Pair.entry) =
      request.headerReads.map .used := entriesVarEvents_map_valueEntry _ _ _
  have hcookies : entriesVarEvents (request.cookies.map Pair.entry) =
      request.cookieReads.map .used := entriesVarEvents_map_valueEntry _ _ _
  have hbody : entriesVarEvents (body.map fun body => ("body", body)).toList =
      (body.map Expr.varEvents).getD [] := by
    cases body <;> simp [entriesVarEvents]
  simp [paramEntries, entriesVarEvents_authEntry, entriesVarEvents_objectEntry,
    entriesVarEvents_bearerEntry, hheaders, hcookies, hbody, entriesVarEvents_tagEntries,
    entriesVarEvents_timeoutEntry]

theorem varEvents_bodyExpr? (request : Request) :
    (request.bodyExpr?.map Expr.varEvents).getD [] = request.bodyReads.map .used := by
  unfold bodyExpr? bodyReads
  match request.body with
  | none => rfl
  | some [] => rfl
  | some (member :: members) =>
    exact entriesVarEvents_map_valueEntry (fun pair : String × Json => pair.1) (·.2)
      (member :: members)

def argumentReads (request : Request) : List String :=
  if request.hasPositionalBody then
    request.bodyReads ++ (request.bearerReads ++ request.headerReads ++ request.cookieReads)
  else request.bearerReads ++ request.headerReads ++ request.cookieReads ++ request.bodyReads

/-- The object of parameters as an argument, which is left out when it would be empty. -/
def objectArgument : List (String × Expr) → List Expr
  | [] => []
  | entries => [.object entries]

theorem exprsVarEvents_objectArgument (entries : List (String × Expr)) :
    exprsVarEvents (objectArgument entries) = entriesVarEvents entries := by
  cases entries <;> simp [objectArgument, exprsVarEvents, Expr.varEvents, entriesVarEvents]

/-- The arguments behind the URL, where `positional` is the body in its own place. -/
def argumentList (hasBody : Bool) (positional : Option Expr) (params : List Expr) : List Expr :=
  if hasBody then
    match positional, params with
    | some body, _ => body :: params
    | none, [] => []
    | none, _ => .ident "null" :: params
  else params

theorem arguments_eq (request : Request) :
    request.arguments =
      argumentList request.method.hasBodyArgument
        (if request.hasPositionalBody then request.bodyExpr? else none)
        (objectArgument
          (request.paramEntries (if request.hasPositionalBody then none else request.bodyExpr?))) :=
  rfl

theorem exprsVarEvents_argumentList {hasBody : Bool} {positional : Option Expr}
    (h : positional.isSome → hasBody) (params : List Expr) :
    exprsVarEvents (argumentList hasBody positional params) =
      (positional.map Expr.varEvents).getD [] ++ exprsVarEvents params := by
  unfold argumentList
  cases positional with
  | some body => simp [h rfl, exprsVarEvents]
  | none => cases hasBody <;> cases params <;> simp [exprsVarEvents, Expr.varEvents]

theorem exprsVarEvents_arguments (request : Request) :
    exprsVarEvents request.arguments = request.argumentReads.map .used := by
  have hbody := request.varEvents_bodyExpr?
  rw [arguments_eq, exprsVarEvents_argumentList, exprsVarEvents_objectArgument,
    entriesVarEvents_paramEntries, argumentReads]
  · cases request.hasPositionalBody <;> simp [hbody]
  · cases h : request.hasPositionalBody with
    | true => exact fun _ => (Bool.and_eq_true_iff.mp h).2
    | false => exact fun hsome => absurd hsome (by simp)

theorem varEvents_stmt (request : Request) (ref : StepRef) :
    (request.stmt ref).varEvents = (request.urlReads ++ request.argumentReads).map .used := by
  rw [stmt, Stmt.varEvents, Expr.varEvents, exprsVarEvents, exprsVarEvents_arguments,
    Expr.varEvents, Template.varEvents, varNames_urlTemplate, List.map_append]

end Request

namespace Check

def reads (check : Check) : List String :=
  (placeholders (check.path.getD "")).filter (· ≠ expectedValue)

theorem varNames_condition (check : Check) : check.condition.varNames = check.reads := by
  unfold condition reads placeholders
  rw [Template.varNames_ofTokens, Template.varNames_empty, List.nil_append]
  induction Template.scan (check.path.getD "") with
  | nil => rfl
  | cons token rest ih =>
    rw [List.map_cons, List.filterMap_cons, List.filterMap_cons, ih]
    cases token with
    | text s => simp [Template.Token.name?]
    | bare => simp [Template.Token.name?]
    | var name => by_cases h : name = expectedValue <;> simp [Template.Token.name?, h]

end Check

theorem varNames_extraction (result path : String) :
    (extraction result path).varNames = placeholders path := by
  unfold extraction
  rw [Template.varNames_ofTokens]
  have hstart : (if (Template.scan (Text.trim path)).head? = some .bare then Template.empty
      else if startsWithAccess (Text.trim path).toList then .literal result
      else .literal (result ++ ".")).varNames = [] := by
    split
    · rfl
    · split <;> simp
  rw [hstart, List.nil_append]
  exact Template.placeholders_trim path

def Assignment.events (assignment : Assignment) : List VarEvent :=
  (placeholders assignment.path).map .used ++ [.assigned assignment.name]

theorem Assignment.varEvents_stmt (assignment : Assignment) (ref : StepRef) :
    (assignment.stmt ref).varEvents = assignment.events := by
  rw [stmt, Stmt.varEvents, Expr.varEvents, Template.varEvents, varNames_extraction]
  rfl

namespace Step

def checkReads (step : Step) : List String :=
  step.checks.flatMap Check.reads

theorem stmtsVarEvents_checkStmts (step : Step) (ref : StepRef) :
    stmtsVarEvents (step.checkStmts ref) = step.checkReads.map .used := by
  have hentries (checks : List Check) :
      entriesVarEvents (checks.map Check.entry) = (checks.flatMap Check.reads).map .used := by
    induction checks with
    | nil => rfl
    | cons check rest ih =>
      rw [List.map_cons, List.flatMap_cons, List.map_append, ← ih]
      simp [Check.entry, entriesVarEvents, Expr.varEvents, Template.varEvents,
        Check.varNames_condition]
  unfold checkStmts checkReads
  cases step.checks with
  | nil => rfl
  | cons check rest =>
    simp only [stmtsVarEvents, Stmt.varEvents, Expr.varEvents, exprsVarEvents, hentries,
      List.nil_append, List.append_nil]

def events (step : Step) : List VarEvent :=
  (step.request.urlReads ++ step.request.argumentReads ++ step.checkReads).map .used ++
    step.assignments.flatMap Assignment.events

theorem stmtsVarEvents_stmts (step : Step) (ref : StepRef) :
    stmtsVarEvents (step.stmts ref) = step.events := by
  have hassignments (assignments : List Assignment) :
      stmtsVarEvents (assignments.map (·.stmt ref)) = assignments.flatMap Assignment.events := by
    induction assignments with
    | nil => rfl
    | cons assignment rest ih =>
      rw [List.map_cons, stmtsVarEvents, ih, assignment.varEvents_stmt, List.flatMap_cons]
  have hsleep : stmtsVarEvents step.sleepStmts = [] := by
    unfold sleepStmts
    cases step.sleep <;> simp [stmtsVarEvents, Stmt.varEvents, Expr.varEvents, exprsVarEvents]
  unfold stmts events
  rw [stmtsVarEvents_append, stmtsVarEvents_append, stmtsVarEvents,
    stmtsVarEvents_checkStmts, hassignments, hsleep, Request.varEvents_stmt]
  simp

theorem assigned_mem_events {step : Step} {name : String} :
    .assigned name ∈ step.events ↔ ∃ assignment ∈ step.assignments, assignment.name = name := by
  simp [events, Assignment.events, eq_comm]

end Step

theorem stmtsVarEvents_stepsStmts (place : Nat → StepRef) (index : Nat) (steps : List Step) :
    stmtsVarEvents (stepsStmts place index steps) = steps.flatMap Step.events := by
  induction steps generalizing index with
  | nil => rfl
  | cons step rest ih =>
    rw [stepsStmts, stmtsVarEvents_append, step.stmtsVarEvents_stmts, ih, List.flatMap_cons]

theorem stmtsVarEvents_groupsStmts (index : Nat) (groups : List Group) :
    stmtsVarEvents (groupsStmts index groups) =
      (groups.flatMap Group.steps).flatMap Step.events := by
  induction groups generalizing index with
  | nil => rfl
  | cons group rest ih =>
    rw [groupsStmts, stmtsVarEvents, ih, List.flatMap_cons, List.flatMap_append]
    simp [Group.stmt, Stmt.varEvents, Expr.varEvents, exprsVarEvents, stmtsVarEvents_stepsStmts]

end FlowScript
