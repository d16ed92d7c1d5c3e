import FlowScript.Proofs.Flow.Report
import FlowScript.Proofs.Flow.StepRef
import FlowScript.Proofs.Flow.Validity

/-! Where a flow can be at fault, and which of the faults are reported. A site is a part of a step
with a violation of its own. What is wrong at a site is said here without regard to the other sites,
so the report can be compared with all that is wrong. -/

namespace FlowScript

open Text Checked

inductive PairList where
  | headers
  | cookies
  | params
  | query
  deriving DecidableEq

inductive AuthSite where
  | kind
  | data

inductive RequestSite where
  | method
  | endpoint
  | auth (site : AuthSite)
  | key (list : PairList) (index : Nat)
  | tag (index : Nat)

inductive RuleSite where
  | reference
  | text

inductive ResponseSite where
  | kind
  | rule (index : Nat) (site : RuleSite)
  | checkPath (index : Nat)

inductive AssignmentSite where
  | name
  | path
  | source

inductive StepSite where
  | kind
  | presence
  | request (site : RequestSite)
  | response (site : ResponseSite)
  | assignment (index : Nat) (site : AssignmentSite)

section Violations

def blankViolation? (ref : StepRef) (field text : String) : Option CompileError :=
  if isBlankText text then some (missing ref field) else none

def wordViolation? (ref : StepRef) (field : String) (unknown : String → CompileError)
    (known : Bool) (text : String) : Option CompileError :=
  if isBlankText text then some (missing ref field)
  else if known then none
  else some (unknown text)

def AuthDraft.violation? (ref : StepRef) (auth : AuthDraft) : AuthSite → Option CompileError
  | .kind =>
    wordViolation? ref "request.auth.kind" (.unsupportedAuthKind ref)
      (AuthKind.ofText? auth.kind).isSome auth.kind
  | .data =>
    if AuthKind.ofText? auth.kind = some .bearer ∧ auth.data.isEmpty then
      some (missing ref "request.auth.data[0]")
    else none

namespace PairList

def field : PairList → String
  | .headers => "request.headers"
  | .cookies => "request.cookies"
  | .params => "request.params"
  | .query => "request.query"

def pairs (request : RequestDraft) : PairList → List Pair
  | .headers => request.headers
  | .cookies => request.cookies
  | .params => request.params
  | .query => request.query

def all : List PairList := [.headers, .cookies, .params, .query]

end PairList

def RequestDraft.violation? (ref : StepRef) (request : RequestDraft) :
    RequestSite → Option CompileError
  | .method =>
    wordViolation? ref "request.method" (.unsupportedMethod ref)
      (Method.ofText? request.method).isSome request.method
  | .endpoint => blankViolation? ref "request.endpoint" request.endpoint
  | .auth site => request.auth.bind fun auth => auth.violation? ref site
  | .key list index =>
    (list.pairs request)[index]?.bind fun pair =>
      blankViolation? ref (elementField list.field index ++ ".key") pair.key
  | .tag index =>
    request.tags[index]?.bind fun tag =>
      blankViolation? ref (elementField "request.tags" index ++ ".name") tag.name

def ValidationRule.violation? (ref : StepRef) (index : Nat) (rule : ValidationRule) :
    RuleSite → Option CompileError
  | .reference =>
    blankViolation? ref (elementField "response.validate" index ++ ".ref") rule.reference
  | .text => blankViolation? ref (elementField "response.validate" index ++ ".rule") rule.rule

def ResponseDraft.violation? (ref : StepRef) (response : ResponseDraft) :
    ResponseSite → Option CompileError
  | .kind =>
    wordViolation? ref "response.kind" (.unsupportedResponseKind ref)
      (ResponseKind.ofText? response.kind).isSome response.kind
  | .rule index site => response.validate[index]?.bind fun rule => rule.violation? ref index site
  | .checkPath index =>
    response.checks[index]?.bind fun check =>
      blankViolation? ref (elementField "response.check" index ++ ".path") (check.path.getD "")

def AssignmentDraft.violation? (ref : StepRef) (index : Nat) (assignment : AssignmentDraft) :
    AssignmentSite → Option CompileError
  | .name =>
    wordViolation? ref (elementField "set_variable" index ++ ".name") (.invalidVariableName ref)
      (isIdentifier assignment.name) assignment.name
  | .path =>
    blankViolation? ref (elementField "set_variable" index ++ ".path") assignment.path
  | .source =>
    if lowerAscii (trim assignment.source) = "response" then none
    else some (.unsupportedVariableSource ref assignment.name assignment.source)

def StepDraft.violation? (ref : StepRef) (step : StepDraft) : StepSite → Option CompileError
  | .kind =>
    wordViolation? ref "kind" (.unsupportedStepKind ref)
      (lowerAscii (trim step.kind) == "api") step.kind
  | .presence => if step.request.isNone then some (missing ref "request") else none
  | .request site => step.request.bind fun request => request.violation? ref site
  | .response site => step.response.bind fun response => response.violation? ref site
  | .assignment index site =>
    step.assignments[index]?.bind fun assignment => assignment.violation? ref index site

end Violations

section Visited

variable {α β σ : Type}

def indexed (visited : α → List σ) (xs : List α) : List (Nat × σ) :=
  xs.zipIdx.flatMap fun (a, index) => (visited a).map (Prod.mk index)

theorem mem_indexed {visited : α → List σ} {xs : List α} {index : Nat} {site : σ} :
    (index, site) ∈ indexed visited xs ↔ ∃ a, xs[index]? = some a ∧ site ∈ visited a := by
  simp only [indexed, List.mem_flatMap, Prod.exists, List.mem_zipIdx_iff_getElem?, List.mem_map,
    Prod.mk.injEq]
  constructor
  · rintro ⟨a, _, hget, _, hsite, rfl, rfl⟩
    exact ⟨a, hget, hsite⟩
  · rintro ⟨a, hget, hsite⟩
    exact ⟨a, index, hget, site, hsite, rfl, rfl⟩

theorem nodup_indexed {visited : α → List σ} (h : ∀ a, (visited a).Nodup) (xs : List α) :
    (indexed visited xs).Nodup := by
  rw [indexed, List.nodup_flatMap]
  refine ⟨fun entry _ => (h _).map fun _ _ heq => (Prod.mk.inj heq).2, ?_⟩
  refine (pairwise_zipIdx xs).imp fun {a b} hne => ?_
  simp only [List.disjoint_left, Function.onFun, List.mem_map]
  rintro _ ⟨_, _, rfl⟩ ⟨_, _, heq⟩
  exact hne (Prod.mk.inj heq).1.symm

theorem violations_each_eq_filterMap {check : Nat → α → Checked β} {visited : α → List σ}
    {violation? : Nat → α → σ → Option CompileError}
    (h : ∀ index a, (check index a).violations = (visited a).filterMap (violation? index a))
    (xs : List α) :
    (each check xs).violations =
      (indexed visited xs).filterMap fun entry =>
        xs[entry.1]?.bind fun a => violation? entry.1 a entry.2 := by
  rw [violations_each, indexed, List.filterMap_flatMap]
  refine List.flatMap_congr fun entry hmem => ?_
  have hget := List.mem_zipIdx_iff_getElem?.mp hmem
  simp only [h, List.filterMap_map, Function.comp_def, hget, Option.bind_some]

theorem violations_whenSome_eq_filterMap {check : α → Checked β} {visited : α → List σ}
    {violation? : α → σ → Option CompileError}
    (h : ∀ a, (check a).violations = (visited a).filterMap (violation? a)) (a : Option α) :
    (whenSome check a).violations =
      (a.toList.flatMap visited).filterMap fun site => a.bind fun a => violation? a site := by
  rw [violations_whenSome, List.filterMap_flatMap]
  cases a <;> simp [h]

def once (_ : α) : List Unit := [()]

theorem violations_each_eq_filterMap_once {check : Nat → α → Checked β}
    {violation? : Nat → α → Option CompileError}
    (h : ∀ index a, (check index a).violations = (violation? index a).toList) (xs : List α) :
    (each check xs).violations =
      (indexed once xs).filterMap fun entry => xs[entry.1]?.bind (violation? entry.1) := by
  have hsites (index : Nat) (a : α) :
      (check index a).violations = (once a).filterMap fun _ => violation? index a := by
    rw [h]
    cases violation? index a <;> rfl
  exact violations_each_eq_filterMap hsites xs

def ValidationRule.visited (rule : ValidationRule) : List RuleSite :=
  if isBlankText rule.reference then [.reference] else [.reference, .text]

def RequestDraft.visited (request : RequestDraft) : List RequestSite :=
  [.method, .endpoint] ++
  (request.auth.toList.flatMap fun _ => [.kind, .data]).map .auth ++
  (PairList.all.flatMap fun list =>
    (indexed once (list.pairs request)).map fun entry => .key list entry.1) ++
  (indexed once request.tags).map fun entry => .tag entry.1

def ResponseDraft.visited (response : ResponseDraft) : List ResponseSite :=
  [.kind] ++
  ((indexed ValidationRule.visited response.validate).map fun entry => .rule entry.1 entry.2) ++
  (indexed once response.checks).map fun entry => .checkPath entry.1

/-- The sites of a step at which validation looks, in its order. -/
def StepDraft.visited (step : StepDraft) : List StepSite :=
  [.kind, .presence] ++
  (step.request.toList.flatMap RequestDraft.visited).map .request ++
  (step.response.toList.flatMap ResponseDraft.visited).map .response ++
  (indexed (fun _ => [.name, .path, .source]) step.assignments).map fun entry =>
    .assignment entry.1 entry.2

end Visited

section Reports

variable {α : Type} (ref : StepRef)

theorem filterMap_cons_toList {σ : Type} (f : σ → Option α) (site : σ) (rest : List σ) :
    (site :: rest).filterMap f = (f site).toList ++ rest.filterMap f := by
  cases h : f site with
  | none => rw [List.filterMap_cons_none h, Option.toList_none, List.nil_append]
  | some a => rw [List.filterMap_cons_some h, Option.toList_some, List.singleton_append]

theorem violations_ensure_not_isBlankText (field text : String) (a : α) :
    (ensure (!isBlankText text) (missing ref field) a).violations =
      (blankViolation? ref field text).toList := by
  rw [violations_ensure, blankViolation?]
  cases isBlankText text <;> rfl

theorem violations_checkNamed (field : String) (unknown : String → CompileError)
    (ofText? : String → Option α) (text : String) :
    (checkNamed ref field unknown ofText? text).violations =
      (wordViolation? ref field unknown (ofText? text).isSome text).toList := by
  unfold checkNamed wordViolation?
  by_cases hblank : isBlankText text
  · simp only [if_pos hblank, violations_reject, Option.toList_some]
  · simp only [if_neg hblank, violations_require]
    cases ofText? text <;> rfl

theorem AuthDraft.violations_check (auth : AuthDraft) :
    (auth.check ref).violations = [AuthSite.kind, .data].filterMap (auth.violation? ref) := by
  have hnamed := violations_checkNamed ref "request.auth.kind" (.unsupportedAuthKind ref)
    AuthKind.ofText? auth.kind
  simp only [filterMap_cons_toList, List.filterMap_nil, List.append_nil, violation?, ← hnamed]
  unfold check
  cases hcheck : checkNamed ref "request.auth.kind" (.unsupportedAuthKind ref) AuthKind.ofText?
      auth.kind with
  | rejected first others =>
    have hnone : AuthKind.ofText? auth.kind ≠ some .bearer := fun hkind => by
      rw [(checkNamed_eq_accepted_iff AuthKind.ofText?_of_isBlankText).mpr hkind] at hcheck
      contradiction
    rw [if_neg fun h => hnone h.1, Option.toList_none, List.append_nil]
    rfl
  | accepted kind =>
    have hkind := (checkNamed_eq_accepted_iff AuthKind.ofText?_of_isBlankText).mp hcheck
    simp only [violations_ensure, violations_accepted, List.nil_append, hkind, Option.some.injEq]
    by_cases hbearer : kind = .bearer ∧ auth.data.isEmpty
    · simp [hbearer]
    · rw [if_neg hbearer, if_pos]
      · rfl
      · simpa [imp_iff_not_or] using hbearer

theorem violations_pairs (list : PairList) (request : RequestDraft) :
    (checkPairs ref list.field (list.pairs request)).violations =
      (indexed once (list.pairs request)).filterMap
        (request.violation? ref ∘ fun entry => .key list entry.1) := by
  have hpair (index : Nat) (pair : Pair) :=
    violations_ensure_not_isBlankText ref (elementField list.field index ++ ".key") pair.key pair
  exact violations_each_eq_filterMap_once hpair _

theorem violations_tags (request : RequestDraft) :
    (each (checkTag ref) request.tags).violations =
      (indexed once request.tags).filterMap
        (request.violation? ref ∘ fun entry => .tag entry.1) := by
  have htag (index : Nat) (tag : Tag) :=
    violations_ensure_not_isBlankText ref (elementField "request.tags" index ++ ".name") tag.name
      tag
  exact violations_each_eq_filterMap_once htag _

theorem RequestDraft.violations_check (request : RequestDraft) :
    (request.check ref).violations = request.visited.filterMap (request.violation? ref) := by
  have hmethod : (request.violation? ref .method).toList = _ :=
    (violations_checkNamed ref _ _ Method.ofText? _).symm
  have hendpoint : (request.violation? ref .endpoint).toList = _ :=
    (violations_ensure_not_isBlankText ref _ _ request.endpoint).symm
  have hauth := violations_whenSome_eq_filterMap (AuthDraft.violations_check ref) request.auth
  unfold check visited
  simp only [map_eq, seq_eq, violations_seq, violations_map, List.filterMap_append,
    filterMap_cons_toList, List.filterMap_nil, List.append_nil, PairList.all, List.flatMap_cons,
    List.flatMap_nil, ← violations_pairs, violations_tags, hauth, hmethod, hendpoint,
    List.filterMap_map, List.append_assoc]
  rfl

theorem ValidationRule.violations_check (index : Nat) (rule : ValidationRule) :
    (checkRule ref index rule).violations = rule.visited.filterMap (rule.violation? ref index) := by
  unfold checkRule visited
  by_cases hblank : isBlankText rule.reference
  · simp only [if_pos hblank, violations_reject, filterMap_cons_toList, List.filterMap_nil,
      violation?, blankViolation?, Option.toList_some, List.append_nil]
  · simp only [if_neg hblank, violations_ensure_not_isBlankText, filterMap_cons_toList,
      List.filterMap_nil, violation?, List.append_nil]
    simp only [blankViolation?, if_neg hblank, Option.toList_none, List.nil_append]

theorem violations_checkCheck (index : Nat) (check : Check) :
    (checkCheck ref index check).violations =
      (blankViolation? ref (elementField "response.check" index ++ ".path")
        (check.path.getD "")).toList := by
  rw [← violations_ensure_not_isBlankText (a := check)]
  unfold checkCheck
  simp only [violations_ensure]
  cases check.path <;> rfl

theorem ResponseDraft.violations_check (response : ResponseDraft) :
    (response.check ref).violations = response.visited.filterMap (response.violation? ref) := by
  have hkind : (response.violation? ref .kind).toList = _ :=
    (violations_checkNamed ref _ _ ResponseKind.ofText? _).symm
  have hrules :=
    violations_each_eq_filterMap (ValidationRule.violations_check ref) response.validate
  have hchecks := violations_each_eq_filterMap_once (violations_checkCheck ref) response.checks
  unfold check visited
  simp only [map_eq, seq_eq, violations_seq, violations_map, List.filterMap_append,
    filterMap_cons_toList, List.filterMap_nil, List.append_nil, List.filterMap_map, hkind, hrules,
    hchecks]
  rfl

theorem violations_checkName (index : Nat) (assignment : AssignmentDraft) :
    (checkName ref (elementField "set_variable" index) assignment.name).violations =
      (assignment.violation? ref index .name).toList := by
  unfold checkName AssignmentDraft.violation? wordViolation?
  by_cases hblank : isBlankText assignment.name
  · simp only [if_pos hblank, violations_reject, Option.toList_some]
  · simp only [if_neg hblank, violations_ensure]
    cases isIdentifier assignment.name <;> rfl

theorem AssignmentDraft.violations_check (index : Nat) (assignment : AssignmentDraft) :
    (assignment.check ref index).violations =
      [AssignmentSite.name, .path, .source].filterMap (assignment.violation? ref index) := by
  have hpath : (assignment.violation? ref index .path).toList = _ :=
    (violations_ensure_not_isBlankText ref _ _ assignment.path).symm
  have hsource : (assignment.violation? ref index .source).toList =
      (ensure (equalIgnoringCase (trim assignment.source) "response")
        (.unsupportedVariableSource ref assignment.name assignment.source) ()).violations := by
    rw [violations_ensure]
    simp only [violation?, equalIgnoringCase, show lowerAscii "response" = "response" from rfl,
      beq_iff_eq]
    split <;> rfl
  unfold check
  simp only [map_eq, seq_eq, violations_seq, violations_map, filterMap_cons_toList,
    List.filterMap_nil, List.append_nil, ← violations_checkName, hpath, hsource, List.append_assoc]

theorem violations_checkStepKind (step : StepDraft) :
    (checkStepKind ref step.kind).violations = (step.violation? ref .kind).toList := by
  have hknown (known : Bool) : (if known then some () else none).isSome = known := by
    cases known <;> rfl
  rw [checkStepKind, violations_checkNamed, hknown, StepDraft.violation?]

theorem StepDraft.violations_check (step : StepDraft) :
    (step.check ref).violations = step.visited.filterMap (step.violation? ref) := by
  have hresponse :=
    violations_whenSome_eq_filterMap (ResponseDraft.violations_check ref) step.response
  have hassignments :=
    violations_each_eq_filterMap (AssignmentDraft.violations_check ref) step.assignments
  unfold check visited
  simp only [map_eq, seq_eq, violations_seq, violations_map, List.filterMap_append,
    filterMap_cons_toList, List.filterMap_nil, List.append_nil, violations_checkStepKind,
    hresponse, hassignments, List.filterMap_map, List.append_assoc]
  cases hrequest : step.request with
  | none => simp [violation?, hrequest, Function.comp_def]
  | some request =>
    simp [violation?, hrequest, Function.comp_def, RequestDraft.violations_check]

end Reports

section Distinct

variable {α β σ : Type}

theorem nodup_toList_flatMap {visited : α → List σ} (h : ∀ a, (visited a).Nodup)
    (a : Option α) : (a.toList.flatMap visited).Nodup := by
  cases a <;> simp [h]

theorem nodup_map_indexed {visited : α → List β} {site : Nat → β → σ}
    (h : ∀ a, (visited a).Nodup)
    (hinj : ∀ i j a b, site i a = site j b → i = j ∧ a = b) (xs : List α) :
    ((indexed visited xs).map fun entry => site entry.1 entry.2).Nodup :=
  (nodup_indexed h xs).map fun _ _ heq =>
    have hparts := hinj _ _ _ _ heq
    Prod.ext hparts.1 hparts.2

theorem nodup_map_indexed_once {site : Nat → σ} (h : Function.Injective site) (xs : List α) :
    ((indexed once xs).map fun entry => site entry.1).Nodup :=
  nodup_map_indexed (fun _ => List.nodup_singleton ()) (fun _ _ _ _ heq => ⟨h heq, rfl⟩) xs

theorem ValidationRule.nodup_visited (rule : ValidationRule) : rule.visited.Nodup := by
  unfold visited
  split <;> simp

theorem RequestDraft.nodup_keys (request : RequestDraft) :
    (PairList.all.flatMap fun list =>
      (indexed once (list.pairs request)).map fun entry => RequestSite.key list entry.1).Nodup := by
  have hall : PairList.all.Nodup := by decide
  refine List.nodup_flatMap.mpr ⟨fun list _ => ?_, hall.imp fun hne => ?_⟩
  · exact nodup_map_indexed_once (fun _ _ heq => (RequestSite.key.inj heq).2) _
  · exact disjoint_map (fun _ _ heq => hne (RequestSite.key.inj heq).1) _ _

theorem RequestDraft.nodup_visited (request : RequestDraft) : request.visited.Nodup := by
  have hauth : (request.auth.toList.flatMap fun _ => [AuthSite.kind, .data]).Nodup :=
    nodup_toList_flatMap (fun _ => by simp) _
  have hauth := hauth.map fun _ _ heq => RequestSite.auth.inj heq
  have htags := nodup_map_indexed_once (fun _ _ heq => RequestSite.tag.inj heq) request.tags
  unfold visited
  refine ((List.Nodup.append (by simp) hauth ?_).append request.nodup_keys ?_).append htags ?_
  · simp
  · simp only [List.disjoint_left, List.mem_append, List.mem_flatMap, List.mem_map]
    grind
  · simp only [List.disjoint_left, List.mem_append, List.mem_flatMap, List.mem_map]
    grind

theorem ResponseDraft.nodup_visited (response : ResponseDraft) : response.visited.Nodup := by
  have hrules := nodup_map_indexed ValidationRule.nodup_visited
    (fun _ _ _ _ heq => ResponseSite.rule.inj heq) response.validate
  have hchecks :=
    nodup_map_indexed_once (fun _ _ heq => ResponseSite.checkPath.inj heq) response.checks
  unfold visited
  refine (List.Nodup.append (by simp) hrules ?_).append hchecks ?_
  · simp
  · simp only [List.disjoint_left, List.mem_append, List.mem_map]
    grind

theorem StepDraft.nodup_visited (step : StepDraft) : step.visited.Nodup := by
  have hrequest := (nodup_toList_flatMap RequestDraft.nodup_visited step.request).map
    fun _ _ heq => StepSite.request.inj heq
  have hresponse := (nodup_toList_flatMap ResponseDraft.nodup_visited step.response).map
    fun _ _ heq => StepSite.response.inj heq
  have hsites : [AssignmentSite.name, .path, .source].Nodup := by simp
  have hassignments := nodup_map_indexed (fun _ => hsites)
    (fun _ _ _ _ heq => StepSite.assignment.inj heq) step.assignments
  unfold visited
  refine ((List.Nodup.append (by simp) hrequest ?_).append hresponse ?_).append hassignments ?_
  · simp
  · simp only [List.disjoint_left, List.mem_append, List.mem_map]
    grind
  · simp only [List.disjoint_left, List.mem_append, List.mem_map]
    grind

end Distinct

section Complete

variable {α σ : Type} {ref : StepRef}

theorem exists_of_isSome_bind {β : Type} {a : Option α} {f : α → Option β}
    (h : (a.bind f).isSome) : ∃ x, a = some x ∧ (f x).isSome := by
  cases a with
  | none => contradiction
  | some x => exact ⟨x, rfl, h⟩

theorem RequestDraft.mem_visited {request : RequestDraft} {site : RequestSite}
    (h : (request.violation? ref site).isSome) : site ∈ request.visited := by
  unfold visited
  cases site with
  | method => simp
  | endpoint => simp
  | auth site =>
    obtain ⟨auth, hauth, _⟩ := exists_of_isSome_bind h
    cases site <;> simp [hauth]
  | key list index =>
    obtain ⟨pair, hpair, _⟩ := exists_of_isSome_bind h
    have hall : list ∈ PairList.all := by cases list <;> decide
    simp [hall, mem_indexed, once, hpair]
  | tag index =>
    obtain ⟨tag, htag, _⟩ := exists_of_isSome_bind h
    simp [mem_indexed, once, htag]

/-- The text of an entry that gives no reference is not looked at. -/
def ResponseDraft.Hides (response : ResponseDraft) (site : ResponseSite) : Prop :=
  ∃ index rule, response.validate[index]? = some rule ∧ isBlankText rule.reference ∧
    site = .rule index .text

theorem ValidationRule.mem_visited {rule : ValidationRule} {site : RuleSite} :
    site ∈ rule.visited ↔ ¬(isBlankText rule.reference ∧ site = .text) := by
  unfold visited
  cases site <;> split <;> simp [*]

theorem ResponseDraft.mem_visited {response : ResponseDraft} {site : ResponseSite}
    (h : (response.violation? ref site).isSome) :
    site ∈ response.visited ↔ ¬response.Hides site := by
  unfold visited Hides
  cases site with
  | kind => simp
  | rule index site =>
    obtain ⟨rule, hrule, _⟩ := exists_of_isSome_bind h
    simp [mem_indexed, hrule, ValidationRule.mem_visited]
  | checkPath index =>
    obtain ⟨check, hcheck, _⟩ := exists_of_isSome_bind h
    simp [mem_indexed, once, hcheck]

def StepDraft.Hides (step : StepDraft) (site : StepSite) : Prop :=
  ∃ response inner, step.response = some response ∧ response.Hides inner ∧ site = .response inner

theorem StepDraft.mem_visited {step : StepDraft} {site : StepSite}
    (h : (step.violation? ref site).isSome) : site ∈ step.visited ↔ ¬step.Hides site := by
  unfold visited Hides
  cases site with
  | kind => simp
  | presence => simp
  | request site =>
    obtain ⟨request, hrequest, hsite⟩ := exists_of_isSome_bind h
    simp [hrequest, RequestDraft.mem_visited hsite]
  | response site =>
    obtain ⟨response, hresponse, hsite⟩ := exists_of_isSome_bind h
    simp [hresponse, ResponseDraft.mem_visited hsite]
  | assignment index site =>
    obtain ⟨assignment, hassignment, _⟩ := exists_of_isSome_bind h
    cases site <;> simp [mem_indexed, hassignment]

end Complete

end FlowScript
