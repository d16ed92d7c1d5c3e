import FlowScript.Flow.Checked
import FlowScript.Flow.Draft
import FlowScript.Text.Identifier

/-!
Validation of drafts. Every violation of a flow is reported, in the order of its steps and, within a
step, in a fixed order of its parts. The kind of the flow comes first: a flow of another kind is
reported as such, whatever else is wrong with it.
-/

namespace FlowScript

open Text Checked

def missing (ref : StepRef) (field : String) : CompileError :=
  .missingField ref field

def elementField (field : String) (index : Nat) : String :=
  field ++ "[" ++ toString index ++ "]"

def checkNamed {α : Type} (ref : StepRef) (field : String) (unsupported : String → CompileError)
    (ofText? : String → Option α) (text : String) : Checked α :=
  if isBlankText text then reject (missing ref field)
  else require (unsupported text) (ofText? text)

def checkPair (ref : StepRef) (field : String) (index : Nat) (pair : Pair) : Checked Pair :=
  ensure (!isBlankText pair.key) (missing ref (elementField field index ++ ".key")) pair

def checkPairs (ref : StepRef) (field : String) (pairs : List Pair) : Checked (List Pair) :=
  each (checkPair ref field) pairs

def checkTag (ref : StepRef) (index : Nat) (tag : Tag) : Checked Tag :=
  ensure (!isBlankText tag.name)
    (missing ref (elementField "request.tags" index ++ ".name")) tag

def AuthDraft.check (ref : StepRef) (draft : AuthDraft) : Checked Auth :=
  match
    checkNamed ref "request.auth.kind" (.unsupportedAuthKind ref) AuthKind.ofText? draft.kind
  with
  | .rejected first others => .rejected first others
  | .accepted kind =>
    ensure (kind != .bearer || !draft.data.isEmpty) (missing ref "request.auth.data[0]")
      ⟨kind, draft.data⟩

def RequestDraft.check (ref : StepRef) (draft : RequestDraft) : Checked Request :=
  (fun method endpoint auth headers cookies params query tags =>
    { endpoint, method, auth, headers, cookies, params, query, tags
      body := draft.body, timeout := draft.timeout }) <$>
  checkNamed ref "request.method" (.unsupportedMethod ref) Method.ofText? draft.method <*>
  ensure (!isBlankText draft.endpoint) (missing ref "request.endpoint") draft.endpoint <*>
  whenSome (·.check ref) draft.auth <*>
  checkPairs ref "request.headers" draft.headers <*>
  checkPairs ref "request.cookies" draft.cookies <*>
  checkPairs ref "request.params" draft.params <*>
  checkPairs ref "request.query" draft.query <*>
  each (checkTag ref) draft.tags

/-- The rule of an entry is looked at only if its reference is given. -/
def checkRule (ref : StepRef) (index : Nat) (rule : ValidationRule) : Checked ValidationRule :=
  let field := elementField "response.validate" index
  if isBlankText rule.reference then reject (missing ref (field ++ ".ref"))
  else ensure (!isBlankText rule.rule) (missing ref (field ++ ".rule")) rule

/-- A check needs a path. An empty name counts as none. -/
def checkCheck (ref : StepRef) (index : Nat) (check : Check) : Checked Check :=
  ensure (check.path.any (!isBlankText ·))
    (missing ref (elementField "response.check" index ++ ".path"))
    { check with name := check.name.filter (· != "") }

def ResponseDraft.check (ref : StepRef) (draft : ResponseDraft) : Checked Response :=
  Response.mk <$>
  checkNamed ref "response.kind" (.unsupportedResponseKind ref) ResponseKind.ofText? draft.kind <*>
  each (checkRule ref) draft.validate <*>
  each (checkCheck ref) draft.checks

def checkName (ref : StepRef) (field name : String) : Checked String :=
  if isBlankText name then reject (missing ref (field ++ ".name"))
  else ensure (isIdentifier name) (.invalidVariableName ref name) name

def AssignmentDraft.check (ref : StepRef) (index : Nat) (draft : AssignmentDraft) :
    Checked Assignment :=
  let field := elementField "set_variable" index
  (fun name path _ => ⟨name, path⟩) <$>
  checkName ref field draft.name <*>
  ensure (!isBlankText draft.path) (missing ref (field ++ ".path")) draft.path <*>
  ensure (equalIgnoringCase (trim draft.source) "response")
    (.unsupportedVariableSource ref draft.name draft.source) ()

def checkStepKind (ref : StepRef) (kind : String) : Checked Unit :=
  checkNamed ref "kind" (.unsupportedStepKind ref)
    (fun text => if lowerAscii (trim text) == "api" then some () else none) kind

def StepDraft.check (ref : StepRef) (draft : StepDraft) : Checked Step :=
  (fun _ request response assignments =>
    { sleep := draft.sleep, assignments, request, response }) <$>
  checkStepKind ref draft.kind <*>
  (match draft.request with
    | none => reject (missing ref "request")
    | some request => request.check ref) <*>
  whenSome (·.check ref) draft.response <*>
  each (AssignmentDraft.check ref) draft.assignments

def GroupDraft.check (index : Nat) (draft : GroupDraft) : Checked Group :=
  Group.mk (draft.name.filter (!isBlankText ·)) <$>
  each (fun step => StepDraft.check (.item index step)) draft.steps

def FlowDraft.checkParts (draft : FlowDraft) : Checked Flow :=
  Flow.mk draft.options <$>
  each (fun index => StepDraft.check (.precondition index)) draft.precondition <*>
  each (fun index => StepDraft.check (.postcondition index)) draft.postcondition <*>
  each GroupDraft.check draft.items

def flowKind : String := "load_testing"

def FlowDraft.validate (draft : FlowDraft) : Except CompileError Flow :=
  if trim draft.kind == flowKind then draft.checkParts.toExcept
  else .error (.unsupportedFlowKind draft.kind)

def Flow.ofText (text : String) : Except CompileError Flow :=
  match FlowDraft.ofText text with
  | .error fault => .error (.json (fault.message text))
  | .ok draft => draft.validate

end FlowScript
