import FlowScript.Proofs.Compile.Producers
import FlowScript.Proofs.Compile.ResultName
import FlowScript.Proofs.Script.Outline

/-! The steps of a flow in its script. Each step sends its request once, in the function of its phase
and in the order of the flow, and uses the result behind it. -/

namespace FlowScript

namespace Request

theorem entriesAreData_valueEntries {α : Type} (key : α → String) (value : α → Json)
    (all : List α) : entriesAreData (all.map fun a => valueEntry (key a) (value a)) := by
  simp [entriesAreData_iff, valueEntry, Expr.isData]

theorem entriesAreData_objectEntry (key : String) (entries : List (String × Expr)) :
    entriesAreData (objectEntry key entries) = entriesAreData entries := by
  cases entries <;> simp [objectEntry, entriesAreData, Expr.isData]

theorem entriesAreData_paramEntries (request : Request) {body : Option Expr}
    (h : ∀ e, body = some e → e.isData) : entriesAreData (request.paramEntries body) := by
  have hauth : entriesAreData request.authEntry := by
    unfold authEntry
    split <;> rfl
  have hbearer : entriesAreData request.bearerEntry := by
    unfold bearerEntry
    split <;> rfl
  have hheaders : entriesAreData (request.headers.map Pair.entry) :=
    entriesAreData_valueEntries _ _ _
  have hcookies : entriesAreData (request.cookies.map Pair.entry) :=
    entriesAreData_valueEntries _ _ _
  have hbody : entriesAreData (body.map fun body => ("body", body)).toList := by
    cases body with
    | none => rfl
    | some e => simp [entriesAreData, h e rfl]
  have htags : entriesAreData (request.tags.flatMap tagEntries) := by
    have htag (tag : Tag) : ∀ entry ∈ tagEntries tag, entry.2.isData := by
      cases hstage : tag.stage <;> simp [tagEntries, hstage, Expr.text, Expr.isData]
    refine entriesAreData_iff.mpr fun entry hentry => ?_
    obtain ⟨tag, _, hmem⟩ := List.mem_flatMap.mp hentry
    exact htag tag entry hmem
  have htimeout : entriesAreData request.timeoutEntry := by
    unfold timeoutEntry
    cases request.timeout <;> rfl
  simp only [paramEntries, entriesAreData_append, entriesAreData_objectEntry, hauth, hbearer,
    hheaders, hcookies, hbody, htags, htimeout, Bool.and_self]

theorem isData_bodyExpr? (request : Request) {e : Expr} (h : request.bodyExpr? = some e) :
    e.isData := by
  unfold bodyExpr? at h
  split at h
  · contradiction
  · contradiction
  · obtain rfl := Option.some.inj h
    exact entriesAreData_valueEntries (fun pair : String × Json => pair.1) (·.2) _

theorem mem_argumentList {hasBody : Bool} {positional : Option Expr} {params : List Expr} {e : Expr}
    (h : e ∈ argumentList hasBody positional params) :
    positional = some e ∨ e = .ident "null" ∨ e ∈ params := by
  unfold argumentList at h
  split at h
  · split at h
    · rcases List.mem_cons.mp h with rfl | h
      · exact .inl rfl
      · exact .inr (.inr h)
    · contradiction
    · rcases List.mem_cons.mp h with rfl | h
      · exact .inr (.inl rfl)
      · exact .inr (.inr h)
  · exact .inr (.inr h)

theorem isData_arguments (request : Request) : ∀ e ∈ request.arguments, e.isData := by
  have hbody (e : Expr) (condition : Bool)
      (he : (if condition then request.bodyExpr? else none) = some e) : e.isData := by
    cases condition with
    | true => exact request.isData_bodyExpr? he
    | false => contradiction
  intro e he
  rw [arguments_eq] at he
  rcases mem_argumentList he with hpositional | rfl | hparams
  · exact hbody e _ hpositional
  · rfl
  · cases hentries : request.paramEntries
      (if request.hasPositionalBody then none else request.bodyExpr?) with
    | nil =>
      rw [hentries] at hparams
      contradiction
    | cons first rest =>
      rw [hentries] at hparams
      obtain rfl := List.mem_singleton.mp hparams
      rw [Expr.isData, ← hentries]
      refine request.entriesAreData_paramEntries fun body hbody' => ?_
      cases hplace : request.hasPositionalBody with
      | true => simp [hplace] at hbody'
      | false => exact request.isData_bodyExpr? (by simpa [hplace] using hbody')

theorem outline_stmt (request : Request) (ref : StepRef) :
    (request.stmt ref).outline =
      [.request (some ref.resultVar) ("http." ++ request.method.lower)] := by
  have harguments : exprsOutline (.str request.urlTemplate :: request.arguments) = [] := by
    rw [exprsOutline, exprsOutline_of_isData request.isData_arguments]
    rfl
  have hrequest (method : Method) : "http." ++ method.lower ≠ "k6.group" ∧
      "http." ++ method.lower ≠ "k6.check" ∧ isRequest ("http." ++ method.lower) := by
    cases method <;> decide
  obtain ⟨hgroup, hcheck, hsend⟩ := hrequest request.method
  rw [stmt, Stmt.outline, Expr.outline, if_neg hgroup, if_neg hcheck, if_pos hsend, harguments]
  rfl

end Request

namespace Step

def checkMarks (ref : StepRef) : List Check → List Mark
  | [] => []
  | checks => [.check (some (.ident ref.resultVar)) (checks.map Check.label)]

def marks (step : Step) (ref : StepRef) : List Mark :=
  .request (some ref.resultVar) ("http." ++ step.request.method.lower) ::
    (checkMarks ref step.checks ++ step.assignments.map fun assignment =>
      .store assignment.name (.code (extraction ref.resultVar assignment.path)))

theorem outline_checkStmts (step : Step) (ref : StepRef) :
    stmtsOutline (step.checkStmts ref) = checkMarks ref step.checks := by
  have hentries (checks : List Check) : entriesOutline (checks.map Check.entry) = [] := by
    induction checks with
    | nil => rfl
    | cons check rest ih =>
      rw [List.map_cons, entriesOutline, ih]
      rfl
  have hcall (checks : List Check) :
      stmtsOutline
        [.expr (.call "k6.check" [.ident ref.resultVar, .object (checks.map Check.entry)])] =
      [.check (some (.ident ref.resultVar)) (checks.map Check.label)] := by
    have hlabels : (checks.map Check.entry).map Prod.fst = checks.map Check.label := by
      rw [List.map_map]
      rfl
    simp [stmtsOutline, Stmt.outline, Expr.outline, exprsOutline, hentries, checkLabels, ← hlabels]
  unfold checkStmts checkMarks
  cases step.checks with
  | nil => rfl
  | cons check rest => exact hcall (check :: rest)

theorem outline_assignments (step : Step) (ref : StepRef) :
    stmtsOutline (step.assignments.map (·.stmt ref)) =
      step.assignments.map fun assignment =>
        .store assignment.name (.code (extraction ref.resultVar assignment.path)) := by
  induction step.assignments with
  | nil => rfl
  | cons assignment rest ih => rw [List.map_cons, stmtsOutline, ih]; rfl

theorem outline_sleepStmts (step : Step) : stmtsOutline step.sleepStmts = [] := by
  unfold sleepStmts
  cases step.sleep <;> rfl

theorem outline_stmts (step : Step) (ref : StepRef) :
    stmtsOutline (step.stmts ref) = step.marks ref := by
  rw [stmts, List.cons_append, List.cons_append, stmtsOutline, stmtsOutline_append,
    stmtsOutline_append, step.request.outline_stmt, step.outline_checkStmts,
    step.outline_assignments, step.outline_sleepStmts, List.append_nil]
  rfl

end Step

def stepsMarks (place : Nat → StepRef) (index : Nat) (steps : List Step) : List Mark :=
  (steps.zipIdx index).flatMap fun (step, i) => step.marks (place i)

theorem outline_stepsStmts (place : Nat → StepRef) (index : Nat) (steps : List Step) :
    stmtsOutline (stepsStmts place index steps) = stepsMarks place index steps := by
  induction steps generalizing index with
  | nil => rfl
  | cons step rest ih =>
    rw [stepsStmts, stmtsOutline_append, step.outline_stmts, ih, stepsMarks, stepsMarks,
      List.zipIdx_cons, List.flatMap_cons]

def Group.mark (group : Group) (index : Nat) : Mark :=
  .group (some (.text (group.title index))) (stepsMarks (.item index) 0 group.steps)

theorem Group.outline_stmt (group : Group) (index : Nat) :
    (group.stmt index).outline = [group.mark index] := by
  rw [stmt, Stmt.outline, Expr.outline, if_pos rfl, exprsOutline, exprsOutline, exprsOutline,
    Expr.outline, outline_stepsStmts]
  simp [Expr.text, Expr.outline, mark]

theorem outline_groupsStmts (index : Nat) (groups : List Group) :
    stmtsOutline (groupsStmts index groups) =
      (groups.zipIdx index).map fun (group, g) => group.mark g := by
  induction groups generalizing index with
  | nil => rfl
  | cons group rest ih =>
    rw [groupsStmts, stmtsOutline, group.outline_stmt, ih, List.zipIdx_cons, List.map_cons]
    rfl

theorem Step.results_marks (step : Step) (ref : StepRef) :
    marksResults (step.marks ref) = [ref.resultVar] := by
  have hchecks : marksResults (checkMarks ref step.checks) = [] := by
    cases step.checks <;> rfl
  rw [marks, marksResults, marksResults_append, hchecks, marksResults_map_store]
  rfl

theorem results_stepsMarks (place : Nat → StepRef) (index : Nat) (steps : List Step) :
    marksResults (stepsMarks place index steps) =
      (steps.zipIdx index).map fun step => (place step.2).resultVar := by
  unfold stepsMarks
  induction steps.zipIdx index with
  | nil => rfl
  | cons step rest ih =>
    rw [List.flatMap_cons, marksResults_append, ih, step.1.results_marks, List.map_cons,
      List.singleton_append]

theorem results_groups (index : Nat) (groups : List Group) :
    marksResults ((groups.zipIdx index).map fun (group, g) => group.mark g) =
      (groups.zipIdx index).flatMap fun group =>
        group.1.steps.zipIdx.map fun step => (StepRef.item group.2 step.2).resultVar := by
  induction groups.zipIdx index with
  | nil => rfl
  | cons group rest ih =>
    have hgroup := results_stepsMarks (.item group.2) 0 group.1.steps
    rw [List.map_cons, marksResults, ih, List.flatMap_cons]
    exact congrArg (· ++ _) hgroup

namespace Flow

/-- The places of all steps in the order of execution: preconditions, items group by group,
postconditions. -/
def places (flow : Flow) : List StepRef :=
  (flow.precondition.zipIdx.map fun step => .precondition step.2) ++
  (flow.items.zipIdx.flatMap fun group =>
    group.1.steps.zipIdx.map fun step => .item group.2 step.2) ++
  flow.postcondition.zipIdx.map fun step => .postcondition step.2

theorem nodup_places (flow : Flow) : flow.places.Nodup := by
  have hplaces := StepRef.nodup_places flow.precondition flow.postcondition flow.items Group.steps
  refine (List.Perm.nodup_iff ?_).mp hplaces
  rw [places, List.append_assoc, List.append_assoc]
  exact List.perm_append_comm.append_left _

theorem outline_setupBody (flow : Flow) (settings : Settings) :
    stmtsOutline (flow.setupBody settings) = stepsMarks .precondition 0 flow.precondition := by
  have hstart : stmtsOutline [logLine "[Setup]: Starting test execution",
      .const settings.bag (.object [])] = [] := by
    simp [stmtsOutline, Stmt.outline, logLine, Expr.outline, exprsOutline, entriesOutline, Expr.text,
      isRequest]
  rw [setupBody, stmtsOutline_append, stmtsOutline_append, hstart, outline_stepsStmts]
  exact List.append_nil _

theorem outline_teardownBody (flow : Flow) :
    stmtsOutline flow.teardownBody = stepsMarks .postcondition 0 flow.postcondition := by
  have hend : stmtsOutline [logLine "[Teardown]: Test execution completed"] = [] := by
    simp [stmtsOutline, Stmt.outline, logLine, Expr.outline, exprsOutline, Expr.text, isRequest]
  rw [teardownBody, stmtsOutline_append, hend, outline_stepsStmts, List.append_nil]

theorem outline_setup (flow : Flow) (settings : Settings) :
    (flow.scriptFor settings).outline .setup =
      [.function (.named "setup") (stepsMarks .precondition 0 flow.precondition)] := by
  rw [← flow.outline_setupBody settings]
  rfl

theorem outline_main (flow : Flow) (settings : Settings) :
    (flow.scriptFor settings).outline .main =
      [.function .default (flow.items.zipIdx.map fun (group, g) => group.mark g)] := by
  rw [← outline_groupsStmts]
  rfl

theorem outline_teardown (flow : Flow) (settings : Settings) :
    (flow.scriptFor settings).outline .teardown =
      [.function (.named "teardown") (stepsMarks .postcondition 0 flow.postcondition)] := by
  rw [← flow.outline_teardownBody]
  rfl

theorem results_outline_other (flow : Flow) (settings : Settings) {kind : SectionKind}
    (h : kind ∉ [.setup, .main, .teardown]) :
    marksResults ((flow.scriptFor settings).outline kind) = [] := by
  cases kind with
  | imports => rfl
  | options => rfl
  | summary => rfl
  | setup | main | teardown => simp at h

theorem results_outline (flow : Flow) (settings : Settings) :
    marksResults ((flow.scriptFor settings).outline .setup ++
      (flow.scriptFor settings).outline .main ++ (flow.scriptFor settings).outline .teardown) =
    flow.places.map StepRef.resultVar := by
  have hfunction (how : Export) (inner : List Mark) :
      marksResults [.function how inner] = marksResults inner := List.append_nil _
  rw [outline_setup, outline_main, outline_teardown, marksResults_append, marksResults_append,
    hfunction, hfunction, hfunction, results_stepsMarks, results_stepsMarks, results_groups, places]
  simp only [List.map_append, List.map_flatMap, List.map_map, Function.comp_def]

/-- A flow that compiles has each of its steps in its script once, and no other request. The steps
stand in their order in the function of their phase, the item steps in the group of their own and
each group once, even without steps. The results of the requests are kept in constants with distinct
names. In the same function, and behind the request, stand the checks on its result and the
assignments, whose code starts with the name of the result unless the path is glued to it. -/
theorem script_keeps_steps {flow : Flow} {settings : Settings} {script : Script}
    {session later : Session} (h : flow.script.runFrom settings session = (.ok script, later)) :
    script.outline .setup =
      [.function (.named "setup") (stepsMarks .precondition 0 flow.precondition)] ∧
    script.outline .main =
      [.function .default (flow.items.zipIdx.map fun (group, g) => group.mark g)] ∧
    script.outline .teardown =
      [.function (.named "teardown") (stepsMarks .postcondition 0 flow.postcondition)] ∧
    (∀ kind ∉ [.setup, .main, .teardown], marksResults (script.outline kind) = []) ∧
    marksResults (script.outline .setup ++ script.outline .main ++ script.outline .teardown) =
      flow.places.map StepRef.resultVar ∧
    (flow.places.map StepRef.resultVar).Nodup ∧
    ∀ (ref : StepRef) (path : String),
      leadingWord ((Expr.code (extraction ref.resultVar path)).render settings.bag) =
        ref.resultVar ↔ ¬IsGlued path := by
  obtain rfl := (flow.performs_script settings).eq_of_ok h
  refine ⟨flow.outline_setup settings, flow.outline_main settings, flow.outline_teardown settings,
    fun kind => flow.results_outline_other settings, ?_, ?_, fun ref path => ?_⟩
  · exact flow.results_outline settings
  · exact flow.nodup_places.map StepRef.resultVar_injective
  · have hword (c : Char) := @StepRef.isWordChar_of_mem_resultVar ref c
    exact leadingWord_extraction settings.bag ref.resultVar hword path

end Flow

def tourFlow : Flow where
  options := .none
  precondition := [bindingStep "/login" [⟨"token", "token"⟩]]
  items := [
    ⟨none, []⟩,
    ⟨some "read", [bindingStep "/users" [⟨"id", "$[0]"⟩], bindingStep "/users/${id}" []]⟩]
  postcondition := [bindingStep "/logout" []]

theorem script_keeps_steps_tourFlow :
    ∃ script session, tourFlow.script.runFrom {} .start = (.ok script, session) ∧
      script.outline .main = [.function .default [
        .group (some (.text "group-0")) [],
        .group (some (.text "read")) [
          .request (some "req_1_0") "http.get",
          .store "id" (.code (extraction "req_1_0" "$[0]")),
          .request (some "req_1_1") "http.get"]]] ∧
      marksResults (script.outline .setup ++ script.outline .main ++ script.outline .teardown) =
        ["req_0", "req_1_0", "req_1_1", "post_req_0"] := by
  have hok : (tourFlow.script.runFrom {} .start).1.isOk := by decide +kernel
  obtain ⟨script, session, hrun⟩ := Compile.exists_runFrom_eq_ok hok
  obtain ⟨-, hmain, -, -, hresults, -⟩ := Flow.script_keeps_steps hrun
  exact ⟨script, session, hrun, hmain, hresults⟩

def gluedFlow : Flow where
  options := .none
  precondition := [bindingStep "/a" [], bindingStep "/b" [⟨"v", "$0.id"⟩]]
  items := []
  postcondition := []

/-- The assignment of the second step names the constant of the eleventh. -/
theorem store_names_other_result :
    ∃ script session, gluedFlow.script.runFrom {} .start = (.ok script, session) ∧
      ∃ value, script.outline .setup = [.function (.named "setup") [
          .request (some "req_0") "http.get", .request (some "req_1") "http.get",
          .store "v" value]] ∧
        leadingWord (value.render "variables") = (StepRef.precondition 10).resultVar ∧
        (StepRef.precondition 10).resultVar ≠ (StepRef.precondition 1).resultVar := by
  have hok : (gluedFlow.script.runFrom {} .start).1.isOk := by decide +kernel
  obtain ⟨script, session, hrun⟩ := Compile.exists_runFrom_eq_ok hok
  have hscript := (gluedFlow.performs_script {}).eq_of_ok hrun
  refine ⟨script, session, hrun, .code (extraction "req_1" "$0.id"), ?_, ?_, by decide⟩
  · rw [hscript, Flow.outline_setup]
    rfl
  · decide +kernel

end FlowScript
