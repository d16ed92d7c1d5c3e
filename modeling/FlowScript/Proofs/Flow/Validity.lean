import FlowScript.Flow.Validate
import FlowScript.Proofs.Flow.Checked
import FlowScript.Proofs.Text.Identifier
import FlowScript.Proofs.Text.Trim

/-! What validation accepts and what it makes of it. Nothing of a draft is lost: a text that names a
kind gives way to the kind, a blank name to none, and all else stays. -/

namespace FlowScript

open Text Checked

namespace Text

theorem IsName.not_isBlankText {s : String} (h : IsName s) : ¬isBlankText s := by
  obtain ⟨first, rest, hs, hfirst, _⟩ := h
  intro hblank
  have hpart := isIdentPart_of_isBlank (List.all_eq_true.mp hblank first (by simp [hs]))
  rw [isIdentPart_iff.mpr (.inl hfirst)] at hpart
  contradiction

end Text

section Describes

/-! The texts that name a kind are given up for the kind. -/

structure AuthDraft.Describes (draft : AuthDraft) (auth : Auth) : Prop where
  kind : AuthKind.ofText? draft.kind = some auth.kind
  data : draft.data = auth.data

structure RequestDraft.Describes (draft : RequestDraft) (request : Request) : Prop where
  endpoint : draft.endpoint = request.endpoint
  method : Method.ofText? draft.method = some request.method
  auth : Option.Rel AuthDraft.Describes draft.auth request.auth
  headers : draft.headers = request.headers
  cookies : draft.cookies = request.cookies
  params : draft.params = request.params
  query : draft.query = request.query
  body : draft.body = request.body
  tags : draft.tags = request.tags
  timeout : draft.timeout = request.timeout

structure ResponseDraft.Describes (draft : ResponseDraft) (response : Response) : Prop where
  kind : ResponseKind.ofText? draft.kind = some response.kind
  validate : draft.validate = response.validate
  checks : draft.checks.map (fun check => { check with name := check.name.filter (· != "") }) =
    response.checks

structure AssignmentDraft.Describes (draft : AssignmentDraft) (assignment : Assignment) :
    Prop where
  name : draft.name = assignment.name
  path : draft.path = assignment.path
  source : lowerAscii (trim draft.source) = "response"

structure StepDraft.Describes (draft : StepDraft) (step : Step) : Prop where
  kind : lowerAscii (trim draft.kind) = "api"
  sleep : draft.sleep = step.sleep
  assignments : List.Forall₂ AssignmentDraft.Describes draft.assignments step.assignments
  request : Option.Rel RequestDraft.Describes draft.request (some step.request)
  response : Option.Rel ResponseDraft.Describes draft.response step.response

structure GroupDraft.Describes (draft : GroupDraft) (group : Group) : Prop where
  name : draft.name.filter (!isBlankText ·) = group.name
  steps : List.Forall₂ StepDraft.Describes draft.steps group.steps

structure FlowDraft.Describes (draft : FlowDraft) (flow : Flow) : Prop where
  kind : trim draft.kind = "load_testing"
  options : draft.options = flow.options
  precondition : List.Forall₂ StepDraft.Describes draft.precondition flow.precondition
  postcondition : List.Forall₂ StepDraft.Describes draft.postcondition flow.postcondition
  items : List.Forall₂ GroupDraft.Describes draft.items flow.items

end Describes

section Valid

def Pair.HasKey (pair : Pair) : Prop :=
  ¬isBlankText pair.key

def Tag.HasName (tag : Tag) : Prop :=
  ¬isBlankText tag.name

def Check.HasPath (check : Check) : Prop :=
  ∃ path, check.path = some path ∧ ¬isBlankText path

structure ValidationRule.IsValid (rule : ValidationRule) : Prop where
  reference : ¬isBlankText rule.reference
  rule : ¬isBlankText rule.rule

def Auth.IsValid (auth : Auth) : Prop :=
  auth.kind = .bearer → auth.data ≠ []

structure Request.IsValid (request : Request) : Prop where
  endpoint : ¬isBlankText request.endpoint
  auth : ∀ auth ∈ request.auth, auth.IsValid
  headers : ∀ pair ∈ request.headers, pair.HasKey
  cookies : ∀ pair ∈ request.cookies, pair.HasKey
  params : ∀ pair ∈ request.params, pair.HasKey
  query : ∀ pair ∈ request.query, pair.HasKey
  tags : ∀ tag ∈ request.tags, tag.HasName

structure Response.IsValid (response : Response) : Prop where
  validate : ∀ rule ∈ response.validate, rule.IsValid
  checks : ∀ check ∈ response.checks, check.HasPath

structure Assignment.IsValid (assignment : Assignment) : Prop where
  name : IsName assignment.name
  path : ¬isBlankText assignment.path

structure Step.IsValid (step : Step) : Prop where
  assignments : ∀ assignment ∈ step.assignments, assignment.IsValid
  request : step.request.IsValid
  response : ∀ response ∈ step.response, response.IsValid

structure Flow.IsValid (flow : Flow) : Prop where
  precondition : ∀ step ∈ flow.precondition, step.IsValid
  postcondition : ∀ step ∈ flow.postcondition, step.IsValid
  items : ∀ group ∈ flow.items, ∀ step ∈ group.steps, step.IsValid

end Valid

section Accepted

variable {ref : StepRef} {field : String} {index : Nat}

theorem checkNamed_eq_accepted_iff {α : Type} {unsupported : String → CompileError}
    {ofText? : String → Option α} (hblank : ∀ text, isBlankText text → ofText? text = none)
    {text : String} {kind : α} :
    checkNamed ref field unsupported ofText? text = .accepted kind ↔ ofText? text = some kind := by
  unfold checkNamed
  split
  next h => simp [reject, hblank text h]
  next => exact require_eq_accepted_iff

theorem Method.ofText?_of_isBlankText (text : String) (h : isBlankText text) :
    Method.ofText? text = none := by
  rw [Method.ofText?, trim_of_isBlankText h]
  decide

theorem AuthKind.ofText?_of_isBlankText (text : String) (h : isBlankText text) :
    AuthKind.ofText? text = none := by
  rw [AuthKind.ofText?, trim_of_isBlankText h]
  decide

theorem ResponseKind.ofText?_of_isBlankText (text : String) (h : isBlankText text) :
    ResponseKind.ofText? text = none := by
  rw [ResponseKind.ofText?, trim_of_isBlankText h]
  decide

theorem checkStepKind_eq_accepted_iff {kind : String} {found : Unit} :
    checkStepKind ref kind = .accepted found ↔ lowerAscii (trim kind) = "api" := by
  rw [checkStepKind, checkNamed_eq_accepted_iff]
  · simp
  · intro text h
    rw [trim_of_isBlankText h]
    rfl

theorem checkPairs_eq_accepted_iff {pairs pairs' : List Pair} :
    checkPairs ref field pairs = .accepted pairs' ↔
      pairs = pairs' ∧ ∀ pair ∈ pairs', pair.HasKey := by
  refine each_eq_accepted_self_iff fun index a b => ?_
  simp +contextual [checkPair, Pair.HasKey]

theorem AuthDraft.check_eq_accepted_iff {draft : AuthDraft} {auth : Auth} :
    draft.check ref = .accepted auth ↔ draft.Describes auth ∧ auth.IsValid := by
  have hkind := @checkNamed_eq_accepted_iff ref "request.auth.kind" _ (.unsupportedAuthKind ref)
    AuthKind.ofText? AuthKind.ofText?_of_isBlankText draft.kind
  unfold check
  constructor
  · intro h
    split at h
    · contradiction
    · rename_i kind hcheck
      obtain ⟨rfl, hdata⟩ := ensure_eq_accepted_iff.mp h
      refine ⟨⟨hkind.mp hcheck, rfl⟩, ?_⟩
      rintro rfl
      simpa using hdata
  · rintro ⟨⟨hnamed, hdata⟩, hvalid⟩
    rw [hkind.mpr hnamed, hdata]
    refine ensure_eq_accepted_iff.mpr ⟨rfl, ?_⟩
    by_cases hbearer : auth.kind = .bearer
    · simpa [hbearer] using hvalid hbearer
    · simp [hbearer]

theorem RequestDraft.check_eq_accepted_iff {draft : RequestDraft} {request : Request} :
    draft.check ref = .accepted request ↔ draft.Describes request ∧ request.IsValid := by
  have htags {tags tags' : List Tag} : each (checkTag ref) tags = .accepted tags' ↔
      tags = tags' ∧ ∀ tag ∈ tags', tag.HasName := by
    refine each_eq_accepted_self_iff fun index a b => ?_
    simp +contextual [checkTag, Tag.HasName]
  have hauth {a : Option AuthDraft} {b : Option Auth} : whenSome (·.check ref) a = .accepted b ↔
      Option.Rel AuthDraft.Describes a b ∧ ∀ auth ∈ b, auth.IsValid :=
    whenSome_eq_accepted_iff fun _ _ => AuthDraft.check_eq_accepted_iff
  unfold check
  cases request
  -- The parts of the check, side by side.
  simp only [map_eq, seq_eq, seq_eq_accepted_iff, map_eq_accepted_iff, ensure_eq_accepted_iff,
    checkNamed_eq_accepted_iff Method.ofText?_of_isBlankText, hauth, checkPairs_eq_accepted_iff,
    htags, exists_exists_and_eq_and, exists_and_left, exists_eq_left', ↓existsAndEq, true_and,
    and_assoc, Request.mk.injEq]
  constructor
  · rintro ⟨hmethod, hendpoint, hauth, hvalid, hheaders, hcookies, hparams, hquery, htags,
      rfl, rfl, rfl, rfl, rfl, rfl, rfl, rfl⟩
    exact ⟨⟨rfl, hmethod, hauth, rfl, rfl, rfl, rfl, rfl, rfl, rfl⟩,
      ⟨by simpa using hendpoint, hvalid, hheaders, hcookies, hparams, hquery, htags⟩⟩
  · rintro ⟨⟨rfl, hmethod, hauth, rfl, rfl, rfl, rfl, rfl, rfl, rfl⟩,
      ⟨hendpoint, hvalid, hheaders, hcookies, hparams, hquery, htags⟩⟩
    exact ⟨hmethod, by simpa using hendpoint, hauth, hvalid, hheaders, hcookies, hparams, hquery,
      htags, rfl, rfl, rfl, rfl, rfl, rfl, rfl, rfl⟩

theorem checkRule_eq_accepted_iff {rule rule' : ValidationRule} :
    checkRule ref index rule = .accepted rule' ↔ rule = rule' ∧ rule'.IsValid := by
  unfold checkRule
  constructor
  · intro h
    by_cases hreference : isBlankText rule.reference
    · rw [if_pos hreference] at h
      contradiction
    · rw [if_neg hreference] at h
      obtain ⟨rfl, hrule⟩ := ensure_eq_accepted_iff.mp h
      exact ⟨rfl, hreference, by simpa using hrule⟩
  · rintro ⟨rfl, hreference, hrule⟩
    rw [if_neg hreference]
    exact ensure_eq_accepted_iff.mpr ⟨rfl, by simpa using hrule⟩

theorem checkCheck_eq_accepted_iff {check check' : Check} :
    checkCheck ref index check = .accepted check' ↔
      { check with name := check.name.filter (· != "") } = check' ∧ check'.HasPath := by
  have hpath : check.HasPath ↔ check.path.any (!isBlankText ·) := by
    unfold Check.HasPath
    cases check.path <;> simp
  unfold checkCheck
  rw [ensure_eq_accepted_iff, ← hpath]
  constructor
  · rintro ⟨rfl, h⟩
    exact ⟨rfl, h⟩
  · rintro ⟨rfl, h⟩
    exact ⟨rfl, h⟩

theorem ResponseDraft.check_eq_accepted_iff {draft : ResponseDraft} {response : Response} :
    draft.check ref = .accepted response ↔ draft.Describes response ∧ response.IsValid := by
  have hrules {rules rules' : List ValidationRule} :
      each (checkRule ref) rules = .accepted rules' ↔
        rules = rules' ∧ ∀ rule ∈ rules', rule.IsValid :=
    each_eq_accepted_self_iff fun _ _ _ => checkRule_eq_accepted_iff
  have hchecks {checks checks' : List Check} : each (checkCheck ref) checks = .accepted checks' ↔
      checks.map (fun check => { check with name := check.name.filter (· != "") }) = checks' ∧
        ∀ check ∈ checks', check.HasPath :=
    each_eq_accepted_map_iff fun index a b => @checkCheck_eq_accepted_iff ref index a b
  unfold check
  cases response
  simp only [map_eq, seq_eq, seq_eq_accepted_iff, map_eq_accepted_iff, hrules, hchecks,
    checkNamed_eq_accepted_iff ResponseKind.ofText?_of_isBlankText, exists_exists_and_eq_and,
    exists_eq_left', ↓existsAndEq, true_and, and_assoc, Response.mk.injEq]
  constructor
  · rintro ⟨hkind, hrules, hchecks, rfl, rfl⟩
    exact ⟨⟨hkind, rfl, rfl⟩, ⟨hrules, hchecks⟩⟩
  · rintro ⟨⟨hkind, rfl, rfl⟩, ⟨hrules, hchecks⟩⟩
    exact ⟨hkind, hrules, hchecks, rfl, rfl⟩

theorem checkName_eq_accepted_iff {name name' : String} :
    checkName ref field name = .accepted name' ↔ name = name' ∧ IsName name' := by
  unfold checkName
  by_cases hblank : isBlankText name
  · rw [if_pos hblank]
    constructor
    · intro h
      contradiction
    · rintro ⟨rfl, hname⟩
      exact absurd hblank hname.not_isBlankText
  · rw [if_neg hblank, ensure_eq_accepted_iff, isIdentifier_iff]
    constructor
    · rintro ⟨rfl, hname⟩
      exact ⟨rfl, hname⟩
    · rintro ⟨rfl, hname⟩
      exact ⟨rfl, hname⟩

theorem AssignmentDraft.check_eq_accepted_iff {draft : AssignmentDraft} {assignment : Assignment} :
    draft.check ref index = .accepted assignment ↔
      draft.Describes assignment ∧ assignment.IsValid := by
  have hsource : equalIgnoringCase (trim draft.source) "response" ↔
      lowerAscii (trim draft.source) = "response" := by
    simp [equalIgnoringCase, show lowerAscii "response" = "response" from rfl]
  unfold check
  cases assignment
  simp only [map_eq, seq_eq, seq_eq_accepted_iff, map_eq_accepted_iff, ensure_eq_accepted_iff,
    checkName_eq_accepted_iff, hsource, exists_and_left, exists_eq_left', exists_const,
    ↓existsAndEq, true_and, and_assoc, Assignment.mk.injEq]
  constructor
  · rintro ⟨hname, hpath, hsource, rfl, rfl⟩
    exact ⟨⟨rfl, rfl, hsource⟩, ⟨hname, by simpa using hpath⟩⟩
  · rintro ⟨⟨rfl, rfl, hsource⟩, ⟨hname, hpath⟩⟩
    exact ⟨hname, by simpa using hpath, hsource, rfl, rfl⟩

theorem StepDraft.check_eq_accepted_iff {draft : StepDraft} {step : Step} :
    draft.check ref = .accepted step ↔ draft.Describes step ∧ step.IsValid := by
  have hresponse {a : Option ResponseDraft} {b : Option Response} :
      whenSome (·.check ref) a = .accepted b ↔
        Option.Rel ResponseDraft.Describes a b ∧ ∀ response ∈ b, response.IsValid :=
    whenSome_eq_accepted_iff fun _ _ => ResponseDraft.check_eq_accepted_iff
  have hassignments {drafts : List AssignmentDraft} {assignments : List Assignment} :
      each (AssignmentDraft.check ref) drafts = .accepted assignments ↔
        List.Forall₂ AssignmentDraft.Describes drafts assignments ∧
          ∀ assignment ∈ assignments, assignment.IsValid :=
    each_eq_accepted_iff fun index a b => @AssignmentDraft.check_eq_accepted_iff ref index a b
  obtain ⟨kind, sleep, assignments, request, response⟩ := draft
  cases step
  unfold check
  cases request with
  | none =>
    constructor
    · simp [reject]
    · rintro ⟨⟨_, _, _, hrequest, _⟩, _⟩
      contradiction
  | some request =>
    simp only [map_eq, seq_eq, seq_eq_accepted_iff, map_eq_accepted_iff, hresponse, hassignments,
      checkStepKind_eq_accepted_iff, RequestDraft.check_eq_accepted_iff, exists_and_left,
      exists_const, ↓existsAndEq, true_and, and_true, and_assoc, Step.mk.injEq]
    constructor
    · rintro ⟨hkind, hrequest, hrequestValid, hresponse, hresponseValid, hassignments,
        hassignmentsValid, rfl⟩
      exact ⟨⟨hkind, rfl, hassignments, .some hrequest, hresponse⟩,
        ⟨hassignmentsValid, hrequestValid, hresponseValid⟩⟩
    · rintro ⟨⟨hkind, rfl, hassignments, ⟨hrequest⟩, hresponse⟩,
        ⟨hassignmentsValid, hrequestValid, hresponseValid⟩⟩
      exact ⟨hkind, hrequest, hrequestValid, hresponse, hresponseValid, hassignments,
        hassignmentsValid, rfl⟩

theorem steps_eq_accepted_iff {place : Nat → StepRef} {drafts : List StepDraft}
    {steps : List Step} :
    each (fun index => StepDraft.check (place index)) drafts = .accepted steps ↔
      List.Forall₂ StepDraft.Describes drafts steps ∧ ∀ step ∈ steps, step.IsValid :=
  each_eq_accepted_iff fun index a b => @StepDraft.check_eq_accepted_iff (place index) a b

theorem GroupDraft.check_eq_accepted_iff {draft : GroupDraft} {group : Group} :
    draft.check index = .accepted group ↔
      draft.Describes group ∧ ∀ step ∈ group.steps, step.IsValid := by
  unfold check
  cases group
  simp only [map_eq, map_eq_accepted_iff, steps_eq_accepted_iff, Group.mk.injEq]
  constructor
  · rintro ⟨steps, ⟨hsteps, hvalid⟩, rfl, rfl⟩
    exact ⟨⟨rfl, hsteps⟩, hvalid⟩
  · rintro ⟨⟨rfl, hsteps⟩, hvalid⟩
    exact ⟨_, ⟨hsteps, hvalid⟩, rfl, rfl⟩

theorem toExcept_eq_ok_iff {α : Type} {a : Checked α} {value : α} :
    a.toExcept = .ok value ↔ a = .accepted value := by
  cases a with
  | accepted value' => simp [toExcept]
  | rejected first others => cases others <;> simp [toExcept]

theorem FlowDraft.validate_eq_ok_iff {draft : FlowDraft} {flow : Flow} :
    draft.validate = .ok flow ↔ draft.Describes flow ∧ flow.IsValid := by
  have hitems {drafts : List GroupDraft} {groups : List Group} :
      each GroupDraft.check drafts = .accepted groups ↔
        List.Forall₂ GroupDraft.Describes drafts groups ∧
          ∀ group ∈ groups, ∀ step ∈ group.steps, step.IsValid :=
    each_eq_accepted_iff fun index a b => @GroupDraft.check_eq_accepted_iff index a b
  unfold validate
  by_cases hkind : trim draft.kind = flowKind
  · rw [if_pos (beq_iff_eq.mpr hkind), toExcept_eq_ok_iff, checkParts]
    cases flow
    simp only [map_eq, seq_eq, seq_eq_accepted_iff, map_eq_accepted_iff, steps_eq_accepted_iff,
      hitems, ↓existsAndEq, and_true, and_assoc, Flow.mk.injEq]
    constructor
    · rintro ⟨hpre, hpreValid, hpost, hpostValid, hitems, hitemsValid, rfl⟩
      exact ⟨⟨hkind, rfl, hpre, hpost, hitems⟩, ⟨hpreValid, hpostValid, hitemsValid⟩⟩
    · rintro ⟨⟨_, rfl, hpre, hpost, hitems⟩, ⟨hpreValid, hpostValid, hitemsValid⟩⟩
      exact ⟨hpre, hpreValid, hpost, hpostValid, hitems, hitemsValid, rfl⟩
  · rw [if_neg (by simpa using hkind)]
    constructor
    · intro h
      contradiction
    · rintro ⟨hdraft, _⟩
      exact absurd hdraft.kind hkind

end Accepted

section Acceptable

structure AuthDraft.IsAcceptable (draft : AuthDraft) : Prop where
  kind : (AuthKind.ofText? draft.kind).isSome
  data : AuthKind.ofText? draft.kind = some .bearer → draft.data ≠ []

structure RequestDraft.IsAcceptable (draft : RequestDraft) : Prop where
  method : (Method.ofText? draft.method).isSome
  endpoint : ¬isBlankText draft.endpoint
  auth : ∀ auth ∈ draft.auth, auth.IsAcceptable
  headers : ∀ pair ∈ draft.headers, pair.HasKey
  cookies : ∀ pair ∈ draft.cookies, pair.HasKey
  params : ∀ pair ∈ draft.params, pair.HasKey
  query : ∀ pair ∈ draft.query, pair.HasKey
  tags : ∀ tag ∈ draft.tags, tag.HasName

structure ResponseDraft.IsAcceptable (draft : ResponseDraft) : Prop where
  kind : (ResponseKind.ofText? draft.kind).isSome
  validate : ∀ rule ∈ draft.validate, rule.IsValid
  checks : ∀ check ∈ draft.checks, check.HasPath

structure AssignmentDraft.IsAcceptable (draft : AssignmentDraft) : Prop where
  name : IsName draft.name
  path : ¬isBlankText draft.path
  source : lowerAscii (trim draft.source) = "response"

structure StepDraft.IsAcceptable (draft : StepDraft) : Prop where
  kind : lowerAscii (trim draft.kind) = "api"
  request : ∃ request, draft.request = some request ∧ request.IsAcceptable
  response : ∀ response ∈ draft.response, response.IsAcceptable
  assignments : ∀ assignment ∈ draft.assignments, assignment.IsAcceptable

structure FlowDraft.IsAcceptable (draft : FlowDraft) : Prop where
  kind : trim draft.kind = "load_testing"
  precondition : ∀ step ∈ draft.precondition, step.IsAcceptable
  postcondition : ∀ step ∈ draft.postcondition, step.IsAcceptable
  items : ∀ group ∈ draft.items, ∀ step ∈ group.steps, step.IsAcceptable

variable {ref : StepRef} {field : String} {index : Nat}

theorem violations_checkNamed_eq_nil_iff {α : Type} {unsupported : String → CompileError}
    {ofText? : String → Option α} (hblank : ∀ text, isBlankText text → ofText? text = none)
    {text : String} :
    (checkNamed ref field unsupported ofText? text).violations = [] ↔ (ofText? text).isSome := by
  simp only [violations_eq_nil_iff, checkNamed_eq_accepted_iff hblank, Option.isSome_iff_exists]

theorem violations_checkPairs_eq_nil_iff {pairs : List Pair} :
    (checkPairs ref field pairs).violations = [] ↔ ∀ pair ∈ pairs, pair.HasKey :=
  violations_each_eq_nil_iff fun index pair => by simp [checkPair, violations_ensure, Pair.HasKey]

theorem AuthDraft.violations_check_eq_nil_iff {draft : AuthDraft} :
    (draft.check ref).violations = [] ↔ draft.IsAcceptable := by
  simp only [violations_eq_nil_iff, AuthDraft.check_eq_accepted_iff]
  constructor
  · rintro ⟨auth, ⟨hkind, hdata⟩, hvalid⟩
    refine ⟨Option.isSome_iff_exists.mpr ⟨_, hkind⟩, fun hbearer => ?_⟩
    rw [hdata]
    exact hvalid (Option.some.inj (hkind.symm.trans hbearer))
  · rintro ⟨hkind, hdata⟩
    obtain ⟨kind, hkind⟩ := Option.isSome_iff_exists.mp hkind
    refine ⟨⟨kind, draft.data⟩, ⟨hkind, rfl⟩, ?_⟩
    rintro rfl
    exact hdata hkind

theorem RequestDraft.violations_check_eq_nil_iff {draft : RequestDraft} :
    (draft.check ref).violations = [] ↔ draft.IsAcceptable := by
  have htags : (each (checkTag ref) draft.tags).violations = [] ↔
      ∀ tag ∈ draft.tags, tag.HasName :=
    violations_each_eq_nil_iff fun index tag => by simp [checkTag, violations_ensure, Tag.HasName]
  have hauth : (whenSome (·.check ref) draft.auth).violations = [] ↔
      ∀ auth ∈ draft.auth, auth.IsAcceptable :=
    violations_whenSome_eq_nil_iff fun _ => AuthDraft.violations_check_eq_nil_iff
  unfold check
  simp only [map_eq, seq_eq, violations_seq, violations_map, List.append_eq_nil_iff, htags, hauth,
    violations_checkNamed_eq_nil_iff Method.ofText?_of_isBlankText, violations_ensure,
    violations_checkPairs_eq_nil_iff, and_assoc]
  constructor
  · rintro ⟨hmethod, hendpoint, hauth, hheaders, hcookies, hparams, hquery, htags⟩
    exact ⟨hmethod, by simpa using hendpoint, hauth, hheaders, hcookies, hparams, hquery, htags⟩
  · rintro ⟨hmethod, hendpoint, hauth, hheaders, hcookies, hparams, hquery, htags⟩
    exact ⟨hmethod, by simpa using hendpoint, hauth, hheaders, hcookies, hparams, hquery, htags⟩

theorem ResponseDraft.violations_check_eq_nil_iff {draft : ResponseDraft} :
    (draft.check ref).violations = [] ↔ draft.IsAcceptable := by
  have hrules : (each (checkRule ref) draft.validate).violations = [] ↔
      ∀ rule ∈ draft.validate, rule.IsValid :=
    violations_each_eq_nil_iff fun index rule => by
      simp [violations_eq_nil_iff, checkRule_eq_accepted_iff]
  have hchecks : (each (checkCheck ref) draft.checks).violations = [] ↔
      ∀ check ∈ draft.checks, check.HasPath :=
    violations_each_eq_nil_iff fun index check => by
      simp [violations_eq_nil_iff, checkCheck_eq_accepted_iff, Check.HasPath]
  unfold check
  simp only [map_eq, seq_eq, violations_seq, violations_map, List.append_eq_nil_iff, hrules,
    hchecks, violations_checkNamed_eq_nil_iff ResponseKind.ofText?_of_isBlankText, and_assoc]
  constructor
  · rintro ⟨hkind, hrules, hchecks⟩
    exact ⟨hkind, hrules, hchecks⟩
  · rintro ⟨hkind, hrules, hchecks⟩
    exact ⟨hkind, hrules, hchecks⟩

theorem AssignmentDraft.violations_check_eq_nil_iff {draft : AssignmentDraft} :
    (draft.check ref index).violations = [] ↔ draft.IsAcceptable := by
  simp only [violations_eq_nil_iff, AssignmentDraft.check_eq_accepted_iff]
  constructor
  · rintro ⟨assignment, ⟨hname, hpath, hsource⟩, hvalid⟩
    exact ⟨hname ▸ hvalid.name, hpath ▸ hvalid.path, hsource⟩
  · rintro ⟨hname, hpath, hsource⟩
    exact ⟨⟨draft.name, draft.path⟩, ⟨rfl, rfl, hsource⟩, ⟨hname, hpath⟩⟩

theorem StepDraft.violations_check_eq_nil_iff {draft : StepDraft} :
    (draft.check ref).violations = [] ↔ draft.IsAcceptable := by
  have hkind : (checkStepKind ref draft.kind).violations = [] ↔
      lowerAscii (trim draft.kind) = "api" := by
    simp [violations_eq_nil_iff, checkStepKind_eq_accepted_iff]
  have hresponse : (whenSome (·.check ref) draft.response).violations = [] ↔
      ∀ response ∈ draft.response, response.IsAcceptable :=
    violations_whenSome_eq_nil_iff fun _ => ResponseDraft.violations_check_eq_nil_iff
  have hassignments : (each (AssignmentDraft.check ref) draft.assignments).violations = [] ↔
      ∀ assignment ∈ draft.assignments, assignment.IsAcceptable :=
    violations_each_eq_nil_iff fun index assignment =>
      @AssignmentDraft.violations_check_eq_nil_iff ref index assignment
  unfold check
  simp only [map_eq, seq_eq, violations_seq, violations_map, List.append_eq_nil_iff, hkind,
    hresponse, hassignments, and_assoc]
  cases hrequest : draft.request with
  | none =>
    constructor
    · rintro ⟨_, habsent, _⟩
      contradiction
    · rintro ⟨_, ⟨request, hsome, _⟩, _⟩
      rw [hrequest] at hsome
      contradiction
  | some request =>
    simp only [RequestDraft.violations_check_eq_nil_iff]
    constructor
    · rintro ⟨hkind, hacceptable, hresponse, hassignments⟩
      exact ⟨hkind, ⟨request, hrequest, hacceptable⟩, hresponse, hassignments⟩
    · rintro ⟨hkind, ⟨request', hsome, hacceptable⟩, hresponse, hassignments⟩
      obtain rfl := Option.some.inj (hrequest.symm.trans hsome)
      exact ⟨hkind, hacceptable, hresponse, hassignments⟩

theorem violations_steps_eq_nil_iff {place : Nat → StepRef} {drafts : List StepDraft} :
    (each (fun index => StepDraft.check (place index)) drafts).violations = [] ↔
      ∀ step ∈ drafts, step.IsAcceptable :=
  violations_each_eq_nil_iff fun index a => @StepDraft.violations_check_eq_nil_iff (place index) a

theorem FlowDraft.exists_validate_eq_ok_iff {draft : FlowDraft} :
    (∃ flow, draft.validate = .ok flow) ↔ draft.IsAcceptable := by
  have hitems : (each GroupDraft.check draft.items).violations = [] ↔
      ∀ group ∈ draft.items, ∀ step ∈ group.steps, step.IsAcceptable :=
    violations_each_eq_nil_iff fun index group => by
      rw [GroupDraft.check, map_eq, violations_map, violations_steps_eq_nil_iff]
  unfold validate
  by_cases hkind : trim draft.kind = flowKind
  · simp only [if_pos (beq_iff_eq.mpr hkind), toExcept_eq_ok_iff]
    rw [← violations_eq_nil_iff, checkParts]
    simp only [map_eq, seq_eq, violations_seq, violations_map, List.append_eq_nil_iff,
      violations_steps_eq_nil_iff, hitems, and_assoc]
    constructor
    · rintro ⟨hpre, hpost, hitems⟩
      exact ⟨hkind, hpre, hpost, hitems⟩
    · rintro ⟨_, hpre, hpost, hitems⟩
      exact ⟨hpre, hpost, hitems⟩
  · rw [if_neg (by simpa using hkind)]
    constructor
    · rintro ⟨flow, h⟩
      contradiction
    · intro h
      exact absurd h.kind hkind

end Acceptable

/-- A flow is what validation makes of a draft exactly if the draft describes it, with nothing lost
or added, and it is valid; and validation makes a flow of a draft exactly if all texts of the draft
are acceptable. -/
theorem FlowDraft.validate_lossless (draft : FlowDraft) :
    (∀ flow, draft.validate = .ok flow ↔ draft.Describes flow ∧ flow.IsValid) ∧
      ((∃ flow, draft.validate = .ok flow) ↔ draft.IsAcceptable) :=
  ⟨fun _ => validate_eq_ok_iff, exists_validate_eq_ok_iff⟩

end FlowScript
