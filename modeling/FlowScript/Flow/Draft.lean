import FlowScript.Flow.Basic

/-!
Drafts: flows as descriptors write them. All that names a kind is still text, and almost everything
may be absent, so that what is missing is found by validation and not by decoding.
-/

namespace FlowScript

open Json (Decoder Field Record)

structure AuthDraft where
  kind : String
  data : List AuthDatum

structure RequestDraft where
  endpoint : String
  method : String
  auth : Option AuthDraft
  headers : List Pair
  cookies : List Pair
  params : List Pair
  query : List Pair
  body : Option (List (String × Json))
  tags : List Tag
  timeout : Option Binary64

structure ResponseDraft where
  kind : String
  validate : List ValidationRule
  checks : List Check

structure AssignmentDraft where
  name : String
  source : String
  path : String

structure StepDraft where
  kind : String
  sleep : Option Binary64
  assignments : List AssignmentDraft
  request : Option RequestDraft
  response : Option ResponseDraft

structure GroupDraft where
  name : Option String
  steps : List StepDraft

structure FlowDraft where
  kind : String
  options : ExecutionOptions
  precondition : List StepDraft
  postcondition : List StepDraft
  items : List GroupDraft

def Pair.shape : Record Pair where
  name := "RawKeyValue"
  blank := ⟨"", .null⟩
  fields := [
    .named ["key"] .string fun key pair => { pair with key },
    .named ["value"] .json fun value pair => { pair with value }]

def AuthDatum.shape : Record AuthDatum where
  name := "RawAuthField"
  blank := ⟨"", .null, none⟩
  fields := [
    .named ["key"] .string fun key datum => { datum with key },
    .named ["value"] .json fun value datum => { datum with value },
    .named ["type"] (.optional .string) fun valueType datum => { datum with valueType }]

def AuthDraft.shape : Record AuthDraft where
  name := "RawAuth"
  blank := ⟨"", []⟩
  fields := [
    .named ["kind", "type"] .string fun kind auth => { auth with kind },
    .named ["data"] (.list AuthDatum.shape.decode) fun data auth => { auth with data }]

def Tag.shape : Record Tag where
  name := "RawTag"
  blank := ⟨"", none⟩
  fields := [
    .named ["name"] .string fun name tag => { tag with name },
    .named ["stage"] (.optional .string) fun stage tag => { tag with stage }]

def RequestDraft.shape : Record RequestDraft where
  name := "RawRequest"
  blank := ⟨"", "", none, [], [], [], [], none, [], none⟩
  fields := [
    .named ["endpoint"] .string fun endpoint request => { request with endpoint },
    .named ["method"] .string fun method request => { request with method },
    .named ["auth"] (.optional AuthDraft.shape.decode) fun auth request => { request with auth },
    .named ["headers"] (.list Pair.shape.decode) fun headers request => { request with headers },
    .named ["cookies"] (.list Pair.shape.decode) fun cookies request => { request with cookies },
    .named ["params"] (.list Pair.shape.decode) fun params request => { request with params },
    .named ["query"] (.list Pair.shape.decode) fun query request => { request with query },
    .named ["body"] (.optional .members) fun body request => { request with body },
    .named ["tags"] (.list Tag.shape.decode) fun tags request => { request with tags },
    .named ["timeout", "timeoutSeconds"] (.optional .float) fun timeout request =>
      { request with timeout }]

def ValidationRule.shape : Record ValidationRule where
  name := "RawValidation"
  blank := ⟨"", ""⟩
  fields := [
    .named ["ref"] .string fun reference rule => { rule with reference },
    .named ["rule"] .string fun text rule => { rule with rule := text }]

def Check.shape : Record Check where
  name := "RawCheck"
  blank := ⟨none, none, .null⟩
  fields := [
    .named ["name"] (.optional .string) fun name check => { check with name },
    .named ["path"] (.optional .string) fun path check => { check with path },
    .named ["value"] .json fun value check => { check with value }]

def ResponseDraft.shape : Record ResponseDraft where
  name := "RawResponse"
  blank := ⟨"", [], []⟩
  fields := [
    .named ["kind", "type"] .string fun kind response => { response with kind },
    .named ["validate"] (.list ValidationRule.shape.decode) fun validate response =>
      { response with validate },
    .named ["check"] (.list Check.shape.decode) fun checks response => { response with checks }]

def AssignmentDraft.shape : Record AssignmentDraft where
  name := "RawVariableBinding"
  blank := ⟨"", "response", ""⟩
  fields := [
    .named ["name"] .string fun name assignment => { assignment with name },
    .named ["from"] .string fun source assignment => { assignment with source },
    .named ["path", "ref"] .string fun path assignment => { assignment with path }]

def StepDraft.shape : Record StepDraft where
  name := "RawStep"
  blank := ⟨"", none, [], none, none⟩
  fields := [
    .named ["kind", "type"] .string fun kind step => { step with kind },
    .named ["sleep_seconds", "sleepSeconds", "sleep"] (.optional .float) fun sleep step =>
      { step with sleep },
    .named ["set_variable", "setVariable"] (.list AssignmentDraft.shape.decode)
      fun assignments step => { step with assignments },
    .named ["request"] (.optional RequestDraft.shape.decode) fun request step =>
      { step with request },
    .named ["response"] (.optional ResponseDraft.shape.decode) fun response step =>
      { step with response }]

def GroupDraft.shape : Record GroupDraft where
  name := "RawGroup"
  blank := ⟨none, []⟩
  fields := [
    .named ["name"] (.optional .string) fun name group => { group with name },
    .named ["steps"] (.list StepDraft.shape.decode) fun steps group => { group with steps }]

def FlowDraft.shape : Record FlowDraft where
  name := "RawFlow"
  blank := ⟨"", .none, [], [], []⟩
  fields := [
    .needed ["kind", "type"] .string fun kind flow => { flow with kind },
    .named ["options"] ExecutionOptions.shape.decode fun options flow => { flow with options },
    .named ["precondition"] (.list StepDraft.shape.decode) fun precondition flow =>
      { flow with precondition },
    .named ["postcondition"] (.list StepDraft.shape.decode) fun postcondition flow =>
      { flow with postcondition },
    .named ["items"] (.list GroupDraft.shape.decode) fun items flow => { flow with items }]

def FlowDraft.ofText (text : String) : Except Json.Fault FlowDraft :=
  Json.decodeText FlowDraft.shape.decode text

end FlowScript
