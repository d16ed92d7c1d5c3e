import FlowScript.Proofs.Flow.Completeness
import FlowScript.Proofs.Flow.Sufficiency

/-! Descriptors from which members are left out. They are read as long as they give what is needed,
and what is left out is found by validation: all that is wrong then was wrong before, or a field is
missing. -/

namespace FlowScript

open Json (BlankOr Doc)
open Text (isIdentifier lowerAscii trim)
open Json.Decoder (agrees_string)
open Json.Field (leaves_named leaves_needed)

section Drafts

/-- The words that a draft holds are kept or left out. Of its other texts validation says only that
they are missing. -/
structure AuthDraft.ReducesTo (auth auth' : AuthDraft) : Prop where
  kind : BlankOr "" Eq auth.kind auth'.kind

structure RequestDraft.ReducesTo (request request' : RequestDraft) : Prop where
  method : BlankOr "" Eq request.method request'.method
  auth : BlankOr none (Option.Rel AuthDraft.ReducesTo) request.auth request'.auth

structure ResponseDraft.ReducesTo (response response' : ResponseDraft) : Prop where
  kind : BlankOr "" Eq response.kind response'.kind

structure AssignmentDraft.ReducesTo (assignment assignment' : AssignmentDraft) : Prop where
  name : BlankOr "" Eq assignment.name assignment'.name
  source : BlankOr "response" Eq assignment.source assignment'.source

structure StepDraft.ReducesTo (step step' : StepDraft) : Prop where
  kind : BlankOr "" Eq step.kind step'.kind
  assignments :
    BlankOr [] (List.Forall₂ AssignmentDraft.ReducesTo) step.assignments step'.assignments
  request : BlankOr none (Option.Rel RequestDraft.ReducesTo) step.request step'.request
  response : BlankOr none (Option.Rel ResponseDraft.ReducesTo) step.response step'.response

structure GroupDraft.ReducesTo (group group' : GroupDraft) : Prop where
  steps : BlankOr [] (List.Forall₂ StepDraft.ReducesTo) group.steps group'.steps

structure FlowDraft.ReducesTo (draft draft' : FlowDraft) : Prop where
  precondition :
    BlankOr [] (List.Forall₂ StepDraft.ReducesTo) draft.precondition draft'.precondition
  postcondition :
    BlankOr [] (List.Forall₂ StepDraft.ReducesTo) draft.postcondition draft'.postcondition
  items : BlankOr [] (List.Forall₂ GroupDraft.ReducesTo) draft.items draft'.items

end Drafts

section Reading

theorem AuthDraft.agrees : AuthDraft.shape.decode.Agrees AuthDraft.ReducesTo := by
  intro depth doc doc' auth auth' hreduces hok hok'
  exact
    { kind := (isPlain.sets_named 0 AuthDraft.kind rfl (fun _ _ => rfl)
        (by simp [shape, leaves_named])).agrees agrees_string hreduces hok hok' }

theorem RequestDraft.agrees : RequestDraft.shape.decode.Agrees RequestDraft.ReducesTo := by
  intro depth doc doc' request request' hreduces hok hok'
  exact
    { method := (isPlain.sets_named 1 RequestDraft.method rfl (fun _ _ => rfl)
        (by simp [shape, leaves_named])).agrees agrees_string hreduces hok hok'
      auth := (isPlain.sets_named 2 RequestDraft.auth rfl (fun _ _ => rfl)
        (by simp [shape, leaves_named])).agrees AuthDraft.agrees.optional hreduces hok hok' }

theorem ResponseDraft.agrees : ResponseDraft.shape.decode.Agrees ResponseDraft.ReducesTo := by
  intro depth doc doc' response response' hreduces hok hok'
  exact
    { kind := (isPlain.sets_named 0 ResponseDraft.kind rfl (fun _ _ => rfl)
        (by simp [shape, leaves_named])).agrees agrees_string hreduces hok hok' }

theorem AssignmentDraft.agrees : AssignmentDraft.shape.decode.Agrees AssignmentDraft.ReducesTo := by
  intro depth doc doc' assignment assignment' hreduces hok hok'
  exact
    { name := (isPlain.sets_named 0 AssignmentDraft.name rfl (fun _ _ => rfl)
        (by simp [shape, leaves_named])).agrees agrees_string hreduces hok hok'
      source := (isPlain.sets_named 1 AssignmentDraft.source rfl (fun _ _ => rfl)
        (by simp [shape, leaves_named])).agrees agrees_string hreduces hok hok' }

theorem StepDraft.agrees : StepDraft.shape.decode.Agrees StepDraft.ReducesTo := by
  intro depth doc doc' step step' hreduces hok hok'
  exact
    { kind := (isPlain.sets_named 0 StepDraft.kind rfl (fun _ _ => rfl)
        (by simp [shape, leaves_named])).agrees agrees_string hreduces hok hok'
      assignments := (isPlain.sets_named 2 StepDraft.assignments rfl (fun _ _ => rfl)
        (by simp [shape, leaves_named])).agrees AssignmentDraft.agrees.list hreduces hok hok'
      request := (isPlain.sets_named 3 StepDraft.request rfl (fun _ _ => rfl)
        (by simp [shape, leaves_named])).agrees RequestDraft.agrees.optional hreduces hok hok'
      response := (isPlain.sets_named 4 StepDraft.response rfl (fun _ _ => rfl)
        (by simp [shape, leaves_named])).agrees ResponseDraft.agrees.optional hreduces hok hok' }

theorem GroupDraft.agrees : GroupDraft.shape.decode.Agrees GroupDraft.ReducesTo := by
  intro depth doc doc' group group' hreduces hok hok'
  exact
    { steps := (isPlain.sets_named 1 GroupDraft.steps rfl (fun _ _ => rfl)
        (by simp [shape, leaves_named])).agrees StepDraft.agrees.list hreduces hok hok' }

theorem FlowDraft.agrees : FlowDraft.shape.decode.Agrees FlowDraft.ReducesTo := by
  intro depth doc doc' draft draft' hreduces hok hok'
  exact
    { precondition := (isPlain.sets_named 2 FlowDraft.precondition rfl (fun _ _ => rfl)
        (by simp [shape, leaves_named, leaves_needed])).agrees
          StepDraft.agrees.list hreduces hok hok'
      postcondition := (isPlain.sets_named 3 FlowDraft.postcondition rfl (fun _ _ => rfl)
        (by simp [shape, leaves_named, leaves_needed])).agrees
          StepDraft.agrees.list hreduces hok hok'
      items := (isPlain.sets_named 4 FlowDraft.items rfl (fun _ _ => rfl)
        (by simp [shape, leaves_named, leaves_needed])).agrees
          GroupDraft.agrees.list hreduces hok hok' }

theorem FlowDraft.kind_eq_of_suffices {depth : Json.Depth} {doc doc' : Doc}
    {draft draft' : FlowDraft} (hreduces : doc.ReducesTo doc')
    (hok : FlowDraft.shape.decode depth doc = .ok draft)
    (hok' : FlowDraft.shape.decode depth doc' = .ok draft') (hsuffices : Suffices doc') :
    draft'.kind = draft.kind := by
  have hsets := isPlain.sets_needed 0 FlowDraft.kind rfl (fun _ _ => rfl)
    (by simp [shape, leaves_named])
  exact (hsets.agrees_of_given agrees_string hreduces hok hok' hsuffices.1).symm

end Reading

section Violations

variable (ref : StepRef)

/-- What is wrong was wrong before, or a field is missing. -/
def Excused (before after : Option CompileError) : Prop :=
  ∀ violation, after = some violation → before.isSome ∨ ∃ field, violation = missing ref field

variable {ref}

theorem excused_missing {before : Option CompileError} {condition : Prop} [Decidable condition]
    {field : String} :
    Excused ref before (if condition then some (missing ref field) else none) := by
  intro violation hviolation
  split at hviolation
  · exact .inr ⟨field, (Option.some.inj hviolation).symm⟩
  · contradiction

theorem excused_blank {before : Option CompileError} {field text : String} :
    Excused ref before (blankViolation? ref field text) :=
  excused_missing

theorem excused_word {field text text' : String} {unknown : String → CompileError}
    (known : String → Bool) (h : BlankOr "" Eq text text') :
    Excused ref (wordViolation? ref field unknown (known text) text)
      (wordViolation? ref field unknown (known text') text') := by
  intro violation hviolation
  obtain rfl | rfl := h
  · exact .inr ⟨field, (Option.some.inj hviolation).symm⟩
  · exact .inl (hviolation ▸ rfl)

theorem AuthDraft.ReducesTo.excused {auth auth' : AuthDraft} (h : auth.ReducesTo auth')
    (site : AuthSite) : Excused ref (auth.violation? ref site) (auth'.violation? ref site) := by
  cases site with
  | kind => exact excused_word (fun text => (AuthKind.ofText? text).isSome) h.kind
  | data =>
    rw [AuthDraft.violation?, AuthDraft.violation?]
    exact excused_missing

theorem excused_bind {α : Type} {a? a'? : Option α} {R : α → α → Prop}
    {violation? : α → Option CompileError}
    (hpart : ∀ a', a'? = some a' → ∃ a, a? = some a ∧ R a a')
    (h : ∀ a a', R a a' → Excused ref (violation? a) (violation? a')) :
    Excused ref (a?.bind violation?) (a'?.bind violation?) := by
  intro violation hviolation
  obtain ⟨a', ha', hviolation⟩ := Option.bind_eq_some_iff.mp hviolation
  obtain ⟨a, rfl, hR⟩ := hpart a' ha'
  exact h a a' hR violation hviolation

theorem excused_bind_blank {α : Type} {before : Option CompileError} {a? : Option α}
    {field : String} {text : α → String} :
    Excused ref before (a?.bind fun a => blankViolation? ref field (text a)) := by
  intro violation hviolation
  obtain ⟨a, -, hviolation⟩ := Option.bind_eq_some_iff.mp hviolation
  exact excused_blank violation hviolation

theorem RequestDraft.ReducesTo.excused {request request' : RequestDraft}
    (h : request.ReducesTo request') (site : RequestSite) :
    Excused ref (request.violation? ref site) (request'.violation? ref site) := by
  cases site with
  | method => exact excused_word (fun text => (Method.ofText? text).isSome) h.method
  | endpoint => exact excused_blank
  | auth site =>
    exact excused_bind (fun _ => h.auth.exists_some) fun _ _ hauth => hauth.excused site
  | key list index => exact excused_bind_blank
  | tag index => exact excused_bind_blank

theorem ResponseDraft.ReducesTo.excused {response response' : ResponseDraft}
    (h : response.ReducesTo response') (site : ResponseSite) :
    Excused ref (response.violation? ref site) (response'.violation? ref site) := by
  cases site with
  | kind => exact excused_word (fun text => (ResponseKind.ofText? text).isSome) h.kind
  | rule index site => cases site <;> exact excused_bind_blank
  | checkPath index => exact excused_bind_blank

theorem AssignmentDraft.ReducesTo.excused {assignment assignment' : AssignmentDraft}
    (h : assignment.ReducesTo assignment') (index : Nat) (site : AssignmentSite) :
    Excused ref (assignment.violation? ref index site) (assignment'.violation? ref index site) := by
  cases site with
  | name => exact excused_word isIdentifier h.name
  | path => exact excused_blank
  | source =>
    intro violation hviolation
    simp only [AssignmentDraft.violation?] at hviolation ⊢
    obtain hsource | hsource := h.source
    · rw [hsource] at hviolation
      contradiction
    · rw [hsource]
      split at hviolation
      · contradiction
      · next hother => exact .inl (by rw [if_neg hother]; rfl)

theorem StepDraft.ReducesTo.excused {step step' : StepDraft} (h : step.ReducesTo step')
    (site : StepSite) : Excused ref (step.violation? ref site) (step'.violation? ref site) := by
  cases site with
  | kind => exact excused_word (fun text => lowerAscii (trim text) == "api") h.kind
  | presence => exact excused_missing
  | request site =>
    exact excused_bind (fun _ => h.request.exists_some) fun _ _ hrequest => hrequest.excused site
  | response site =>
    exact excused_bind (fun _ => h.response.exists_some) fun _ _ hresponse => hresponse.excused site
  | assignment index site =>
    exact excused_bind (fun _ => h.assignments.exists_getElem?) fun _ _ hassignment =>
      hassignment.excused index site

theorem FlowDraft.ReducesTo.exists_stepAt? {draft draft' : FlowDraft} (h : draft.ReducesTo draft')
    {ref : StepRef} {step' : StepDraft} (hstep : draft'.stepAt? ref = some step') :
    ∃ step, draft.stepAt? ref = some step ∧ step.ReducesTo step' := by
  cases ref with
  | precondition index => exact h.precondition.exists_getElem? hstep
  | postcondition index => exact h.postcondition.exists_getElem? hstep
  | item group index =>
    obtain ⟨group', hgroup', hstep⟩ := Option.bind_eq_some_iff.mp hstep
    obtain ⟨group, hgroup, hreduces⟩ := h.items.exists_getElem? hgroup'
    obtain ⟨step, hstep, hreduces⟩ := hreduces.steps.exists_getElem? hstep
    exact ⟨step, Option.bind_eq_some_iff.mpr ⟨group, hgroup, hstep⟩, hreduces⟩

theorem FlowDraft.ReducesTo.excused {draft draft' : FlowDraft} (h : draft.ReducesTo draft')
    (place : StepRef × StepSite) :
    Excused place.1 (draft.violation? place) (draft'.violation? place) :=
  excused_bind (fun _ => h.exists_stepAt?) fun _ _ hstep => hstep.excused place.2

end Violations

namespace FlowDraft

theorem validate_ne_json (draft : FlowDraft) (problem : String) :
    draft.validate ≠ .error (.json problem) := by
  intro herror
  by_cases hkind : trim draft.kind = flowKind
  · have hlocated := fun violation => @step?_of_mem_violations draft violation
    rw [validate_of_kind hkind] at herror
    cases hcheck : draft.checkParts with
    | accepted flow =>
      rw [hcheck] at herror
      contradiction
    | rejected first others =>
      rw [hcheck] at herror hlocated
      cases others with
      | nil =>
        obtain ⟨ref, hfirst⟩ := hlocated first (List.mem_singleton_self _)
        obtain rfl := Except.error.inj herror
        contradiction
      | cons second rest => exact nomatch Except.error.inj herror
  · rw [validate, if_neg (by simpa using hkind)] at herror
    exact nomatch Except.error.inj herror

theorem report_of_other_kind {draft : FlowDraft} (hkind : trim draft.kind ≠ flowKind) :
    draft.report = [.unsupportedFlowKind draft.kind] := by
  rw [report, validate, if_neg (by simpa using hkind)]
  rfl

theorem ReducesTo.mem_report {draft draft' : FlowDraft} (h : draft.ReducesTo draft')
    {violation : CompileError} (hviolation : violation ∈ draft'.report) :
    violation = .unsupportedFlowKind draft'.kind ∨
      (∃ ref field, violation = .missingField ref field) ∨
      ∃ place, draft'.violation? place = some violation ∧ (draft.violation? place).isSome := by
  by_cases hkind : trim draft'.kind = flowKind
  · rw [report_of_kind hkind, violations_checkParts_eq_filterMap] at hviolation
    obtain ⟨place, -, hplace⟩ := List.mem_filterMap.mp hviolation
    obtain hbefore | ⟨field, hfield⟩ := h.excused place violation hplace
    · exact .inr (.inr ⟨place, hplace, hbefore⟩)
    · exact .inr (.inl ⟨place.1, field, hfield⟩)
  · rw [report_of_other_kind hkind] at hviolation
    exact .inl (List.mem_singleton.mp hviolation)

/-- A descriptor that is accepted is accepted without some of its members too, as long as it gives
the kind of the flow and the duration and the target of each stage. What else is left out is found
by validation. Without one of these the descriptor is not read. -/
theorem ofText_reduced {text text' : String} {draft : FlowDraft} (hok : ofText text = .ok draft)
    (hreduces : (Doc.ofText text).1.ReducesTo (Doc.ofText text').1) (htext : Doc.IsText text') :
    (Suffices (Doc.ofText text').1 →
      ∃ draft', ofText text' = .ok draft' ∧ draft'.kind = draft.kind ∧
        (∀ problem, Flow.ofText text' ≠ .error (.json problem)) ∧
        ∀ violation ∈ draft'.report,
          violation = .unsupportedFlowKind draft.kind ∨
          (∃ ref field, violation = .missingField ref field) ∨
          ∃ place, draft'.violation? place = some violation ∧
            (draft.violation? place).isSome) ∧
    (¬Suffices (Doc.ofText text').1 →
      ∃ name ∈ neededNames, ∃ offset,
        ofText text' = .error ⟨.missingField name, offset⟩) := by
  obtain ⟨stop, hstop, hrest⟩ := htext
  have hdecode := (Json.decodeText_eq_ok_iff.mp hok).1
  have hread := survives _ _ _ _ hreduces (Doc.isWhole_ofText hstop) hdecode
  constructor
  · intro hsuffices
    obtain ⟨draft', hdecode'⟩ := hread.exists_ok hsuffices
    have hok' : ofText text' = .ok draft' := by
      refine Json.decodeText_eq_ok_iff.mpr ⟨hdecode', fun stop' hstop' => ?_⟩
      rw [hstop] at hstop'
      exact Option.some.inj hstop' ▸ hrest
    have hkind := kind_eq_of_suffices hreduces hdecode hdecode' hsuffices
    have hagrees : draft.ReducesTo draft' := agrees _ _ _ _ _ hreduces hdecode hdecode'
    refine ⟨draft', hok', hkind, fun problem => ?_, fun violation hviolation => ?_⟩
    · rw [Flow.ofText, hok']
      exact draft'.validate_ne_json problem
    · rw [← hkind]
      exact hagrees.mem_report hviolation
  · intro hlacks
    cases hresult : shape.decode .full (Doc.ofText text').1 with
    | ok draft' =>
      rw [hresult] at hread
      exact absurd hread hlacks
    | error fault =>
      rw [hresult] at hread
      obtain ⟨-, name, hname, hproblem⟩ := hread
      exact ⟨name, hname, fault.offset, hproblem ▸ Json.decodeText_eq_error hresult⟩

section Lacking

def stepText : String :=
  "\x7b\"kind\":\"load_testing\",\"items\":[\x7b\"steps\":[\x7b\"kind\":\"api\"\x7d]\x7d]\x7d"

def stepDoc : Doc :=
  .object 0
    [(⟨.ok "kind", 7⟩, .string 8 (.ok "load_testing") 22),
      (⟨.ok "items", 30⟩, .array 31
        [.object 32
          [(⟨.ok "steps", 40⟩, .array 41
            [.object 42 [(⟨.ok "kind", 49⟩, .string 50 (.ok "api") 55)] (.closed 56)] (.closed 57))]
          (.closed 58)] (.closed 59))] (.closed 60)

def bareStepText : String :=
  "\x7b\"kind\":\"load_testing\",\"items\":[\x7b\"steps\":[\x7b\x7d]\x7d]\x7d"

def bareStepDoc : Doc :=
  .object 0
    [(⟨.ok "kind", 7⟩, .string 8 (.ok "load_testing") 22),
      (⟨.ok "items", 30⟩, .array 31
        [.object 32
          [(⟨.ok "steps", 40⟩, .array 41 [.object 42 [] (.closed 44)] (.closed 45))] (.closed 46)]
        (.closed 47))] (.closed 48)

def stageText : String :=
  "\x7b\"kind\":\"\",\"options\":\x7b\"stages\":[\x7b\"duration\":\"\",\"target\":1\x7d]\x7d\x7d"

def stageDoc : Doc :=
  .object 0
    [(⟨.ok "kind", 7⟩, .string 8 (.ok "") 10),
      (⟨.ok "options", 20⟩, .object 21
        [(⟨.ok "stages", 30⟩, .array 31
          [.object 32
            [(⟨.ok "duration", 43⟩, .string 44 (.ok "") 46),
              (⟨.ok "target", 55⟩, .number 56 (.ok (.natural 1)) 57)] (.closed 58)] (.closed 59))]
        (.closed 60))] (.closed 61)

def bareStageText : String :=
  "\x7b\"kind\":\"\",\"options\":\x7b\"stages\":[\x7b\"target\":1\x7d]\x7d\x7d"

def bareStageDoc : Doc :=
  .object 0
    [(⟨.ok "kind", 7⟩, .string 8 (.ok "") 10),
      (⟨.ok "options", 20⟩, .object 21
        [(⟨.ok "stages", 30⟩, .array 31
          [.object 32 [(⟨.ok "target", 41⟩, .number 42 (.ok (.natural 1)) 43)] (.closed 44)]
          (.closed 45))] (.closed 46))] (.closed 47)

theorem ofText_stepText : Doc.ofText stepText = (stepDoc, some ⟨60, []⟩) := by
  simp only [Doc.ofText_eq, stepText, String.reduceToList]
  rfl

theorem ofText_bareStepText : Doc.ofText bareStepText = (bareStepDoc, some ⟨48, []⟩) := by
  simp only [Doc.ofText_eq, bareStepText, String.reduceToList]
  rfl

theorem ofText_stageText : Doc.ofText stageText = (stageDoc, some ⟨61, []⟩) := by
  simp only [Doc.ofText_eq, stageText, String.reduceToList]
  rfl

theorem ofText_bareStageText : Doc.ofText bareStageText = (bareStageDoc, some ⟨47, []⟩) := by
  simp only [Doc.ofText_eq, bareStageText, String.reduceToList]
  rfl

theorem reducesTo_bareStepDoc : stepDoc.ReducesTo bareStepDoc := by
  have hstep :
      (Doc.object 42 [(⟨.ok "kind", 49⟩, .string 50 (.ok "api") 55)] (.closed 56)).ReducesTo
        (.object 42 [] (.closed 44)) := .object (.drop .nil)
  have hgroup : (Doc.object 32
      [(⟨.ok "steps", 40⟩, .array 41
        [.object 42 [(⟨.ok "kind", 49⟩, .string 50 (.ok "api") 55)] (.closed 56)] (.closed 57))]
      (.closed 58)).ReducesTo
      (.object 32 [(⟨.ok "steps", 40⟩, .array 41 [.object 42 [] (.closed 44)] (.closed 45))]
        (.closed 46)) :=
    .object (.keep rfl (.array (.cons hstep .nil)) .nil)
  exact .object (.keep rfl (.string rfl) (.keep rfl (.array (.cons hgroup .nil)) .nil))

theorem reducesTo_bareStageDoc : stageDoc.ReducesTo bareStageDoc := by
  have hstage : (Doc.object 32
      [(⟨.ok "duration", 43⟩, .string 44 (.ok "") 46),
        (⟨.ok "target", 55⟩, .number 56 (.ok (.natural 1)) 57)] (.closed 58)).ReducesTo
      (.object 32 [(⟨.ok "target", 41⟩, .number 42 (.ok (.natural 1)) 43)] (.closed 44)) :=
    .object (.drop (.keep rfl (.number rfl) .nil))
  exact .object (.keep rfl (.string rfl)
    (.keep rfl (.object (.keep rfl (.array (.cons hstage .nil)) .nil)) .nil))

theorem suffices_bareStepDoc : Suffices bareStepDoc := by
  simp [Suffices, bareStepDoc, Doc.givenAs, Doc.givenIn, Json.Key.isAmong]

theorem not_suffices_bareStageDoc : ¬Suffices bareStageDoc := by
  simp [Suffices, ExecutionOptions.Suffices, Stage.Suffices, bareStageDoc, Doc.givenAs,
    Doc.givenIn, Doc.items, Json.Key.isAmong]

theorem ofText_reduced_step_stage :
    (∃ draft, ofText stepText = .ok draft ∧
      (Doc.ofText stepText).1.ReducesTo (Doc.ofText bareStepText).1 ∧ Doc.IsText bareStepText ∧
      Suffices (Doc.ofText bareStepText).1 ∧
      ∃ draft', ofText bareStepText = .ok draft' ∧ draft'.kind = draft.kind) ∧
    (∃ draft, ofText stageText = .ok draft ∧
      (Doc.ofText stageText).1.ReducesTo (Doc.ofText bareStageText).1 ∧
      Doc.IsText bareStageText ∧ ¬Suffices (Doc.ofText bareStageText).1 ∧
      ∃ name ∈ neededNames, ∃ offset,
        ofText bareStageText = .error ⟨.missingField name, offset⟩) := by
  constructor
  · have hok : ofText stepText = .ok
        ⟨"load_testing", .none, [], [], [⟨none, [⟨"api", none, [], none, none⟩]⟩]⟩ := by
      refine Json.decodeText_eq_ok_iff.mpr ?_
      rw [ofText_stepText]
      exact ⟨rfl, by simp⟩
    have hreduces : (Doc.ofText stepText).1.ReducesTo (Doc.ofText bareStepText).1 := by
      rw [ofText_stepText, ofText_bareStepText]
      exact reducesTo_bareStepDoc
    have htext : Doc.IsText bareStepText := ⟨⟨48, []⟩, by rw [ofText_bareStepText], rfl⟩
    have hsuffices : Suffices (Doc.ofText bareStepText).1 := by
      rw [ofText_bareStepText]
      exact suffices_bareStepDoc
    obtain ⟨draft', hok', hkind, -⟩ := (ofText_reduced hok hreduces htext).1 hsuffices
    exact ⟨_, hok, hreduces, htext, hsuffices, draft', hok', hkind⟩
  · have hok : ofText stageText = .ok
        ⟨"", { ExecutionOptions.none with stages := some [⟨"", 1⟩] }, [], [], []⟩ := by
      refine Json.decodeText_eq_ok_iff.mpr ?_
      rw [ofText_stageText]
      exact ⟨rfl, by simp⟩
    have hreduces : (Doc.ofText stageText).1.ReducesTo (Doc.ofText bareStageText).1 := by
      rw [ofText_stageText, ofText_bareStageText]
      exact reducesTo_bareStageDoc
    have htext : Doc.IsText bareStageText := ⟨⟨47, []⟩, by rw [ofText_bareStageText], rfl⟩
    have hlacks : ¬Suffices (Doc.ofText bareStageText).1 := by
      rw [ofText_bareStageText]
      exact not_suffices_bareStageDoc
    exact ⟨_, hok, hreduces, htext, hlacks, (ofText_reduced hok hreduces htext).2 hlacks⟩

def kindText : String := "\x7b\"kind\":\"load_testing\"\x7d"

theorem ofText_kindText : Doc.ofText kindText =
    (.object 0 [(⟨.ok "kind", 7⟩, .string 8 (.ok "load_testing") 22)] (.closed 23),
      some ⟨23, []⟩) := by
  simp only [Doc.ofText_eq, kindText, String.reduceToList]
  rfl

theorem ofText_emptyObject :
    Doc.ofText "\x7b\x7d" = (.object 0 [] (.closed 2), some ⟨2, []⟩) := by
  simp only [Doc.ofText_eq, String.reduceToList]
  rfl

theorem message_missing_kind : (⟨.missingField "kind", 2⟩ : Json.Fault).message "\x7b\x7d" =
    "missing field \x60kind\x60 at line 1 column 2" := by
  have hopen : '\x7b'.utf8Size = 1 := rfl
  have hclose : '\x7d'.utf8Size = 1 := rfl
  have hposition : Json.position 2 (1, 0) ['\x7b', '\x7d'] = (1, 2) := by
    simp [Json.position, hopen, hclose]
  have hchars : "\x7b\x7d".toList = ['\x7b', '\x7d'] := rfl
  simp only [Json.Fault.message, hchars, hposition]
  rfl

/-- A flow whose kind is left out is not reported as one of an unsupported kind. It is not read. -/
theorem kind_left_out_is_json_problem :
    (∃ flow, Flow.ofText kindText = .ok flow) ∧
    (Doc.ofText kindText).1.ReducesTo (Doc.ofText "\x7b\x7d").1 ∧ Doc.IsText "\x7b\x7d" ∧
    Flow.ofText "\x7b\x7d" = .error (.json "missing field \x60kind\x60 at line 1 column 2") := by
  have hkind : ofText kindText = .ok ⟨"load_testing", .none, [], [], []⟩ := by
    refine Json.decodeText_eq_ok_iff.mpr ?_
    rw [ofText_kindText]
    exact ⟨rfl, by simp⟩
  have hempty : ofText "\x7b\x7d" = .error ⟨.missingField "kind", 2⟩ := by
    refine Json.decodeText_eq_error ?_
    rw [ofText_emptyObject]
    rfl
  refine ⟨⟨⟨.none, [], [], []⟩, ?_⟩, ?_, ⟨⟨2, []⟩, by rw [ofText_emptyObject], rfl⟩, ?_⟩
  · rw [Flow.ofText, hkind]
    rfl
  · rw [ofText_kindText, ofText_emptyObject]
    exact .object (.drop .nil)
  · rw [Flow.ofText, hempty, ← message_missing_kind]

end Lacking

end FlowDraft

end FlowScript
