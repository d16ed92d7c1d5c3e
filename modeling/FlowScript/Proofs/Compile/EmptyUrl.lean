import FlowScript.Proofs.Compile.Availability
import FlowScript.Proofs.Compile.Substitution
import FlowScript.Proofs.Flow.Report
import FlowScript.Proofs.Flow.Validity
import FlowScript.Proofs.Json.Squeeze
import FlowScript.Proofs.Template.Content

/-! When the URL of a valid step is empty. Its endpoint is not blank, and filling leaves something of
it, but the slashes at the end of what is left are cut off, which may be all of it. -/

namespace FlowScript

open Compile

/-- Nothing is put in for null and for an empty string, and for no other value. -/
theorem Json.plainText_eq_empty_iff {value : Json} :
    value.plainText = "" ↔ value = .null ∨ value = .string "" := by
  cases value with
  | null => simp
  | string s => simp
  | _ =>
    rw [plainText_eq_compact (by simp) (by simp)]
    simp [compact_ne_empty]

namespace Endpoint

variable {params : List Pair}

theorem replacement_ne_nil {piece : Piece} {behind : List Char} (hpiece : piece.EndsAt behind)
    (hvalue : ∀ name value, piece = .token name →
      param? params (String.ofList name) = some value → value.plainText ≠ "") :
    replacement params piece ≠ [] := by
  cases hpiece with
  | text hne => exact hne
  | colon => exact List.cons_ne_nil _ _
  | @token name =>
    rw [replacement]
    cases hparam : param? params (String.ofList name) with
    | none => exact List.cons_ne_nil _ _
    | some value => exact fun hnil => hvalue name value rfl hparam (String.toList_eq_nil_iff.mp hnil)

theorem flatMap_replacement_ne_nil {cs : List Char} {all : List Piece} (hmade : MadeOf cs all)
    (hcs : cs ≠ []) (hvalues : ∀ name value, .token name ∈ all →
      param? params (String.ofList name) = some value → value.plainText ≠ "") :
    all.flatMap (replacement params) ≠ [] := by
  cases hmade with
  | nil => exact absurd rfl hcs
  | cons hpiece _ =>
    rw [List.flatMap_cons]
    refine List.append_ne_nil_of_left_ne_nil (replacement_ne_nil hpiece ?_) _
    rintro name value rfl
    exact hvalues name value (List.mem_cons_self ..)

theorem filled_ne_empty {endpoint : String} (hendpoint : endpoint ≠ "")
    (hvalues : ∀ name value, IsToken name endpoint.toList →
      param? params (String.ofList name) = some value → value.plainText ≠ "") :
    filled endpoint params ≠ "" := by
  have hchars : endpoint.toList ≠ [] := fun hnil => hendpoint (String.toList_eq_nil_iff.mp hnil)
  rw [filled, ne_eq, ← String.toList_eq_nil_iff, String.toList_ofList]
  exact flatMap_replacement_ne_nil (madeOf_pieces _) hchars fun name value hname =>
    hvalues name value ((token_mem_pieces_iff name _).mp hname)

end Endpoint

open Endpoint

theorem Text.trimEnd_eq_empty_iff {c : Char} {s : String} :
    Text.trimEnd c s = "" ↔ ∀ d ∈ s.toList, d = c := by
  rw [Text.trimEnd, ← String.toList_eq_nil_iff, String.toList_ofList, Text.dropTail_eq_nil_iff]
  simp only [beq_iff_eq]

namespace Request

theorem isNormal_appendQuery (pairs : List Pair) (separator : String) {url : Template}
    (h : url.IsNormal) : (appendQuery pairs separator url).IsNormal := by
  induction pairs generalizing separator url with
  | nil => exact h
  | cons pair rest ih => exact ih "&" (((h.pushText _).pushText _).append _)

theorem atoms_appendQuery_eq_nil_iff (pairs : List Pair) {separator : String}
    (hseparator : separator ≠ "") (url : Template) :
    (appendQuery pairs separator url).atoms = [] ↔ pairs = [] ∧ url.atoms = [] := by
  induction pairs generalizing separator url with
  | nil => simp [appendQuery]
  | cons pair rest ih =>
    have hchars : Template.textAtoms separator ≠ [] := by
      simpa [Template.textAtoms] using hseparator
    rw [appendQuery, ih (by decide)]
    simp [hchars]

theorem isEmpty_urlTemplate_iff (request : Request) :
    request.urlTemplate.isEmpty ↔
      request.query = [] ∧ ∀ c ∈ request.filled.toList, c = '/' := by
  have hpath : (Template.parse (Text.trimEnd '/' request.filled)).IsNormal :=
    Template.isNormal_empty.ofTokens "$" _
  rw [urlTemplate, (isNormal_appendQuery _ _ hpath).isEmpty_iff,
    atoms_appendQuery_eq_nil_iff _ (by decide), Template.atoms_parse_eq_nil_iff,
    Text.trimEnd_eq_empty_iff]

end Request

theorem Flow.IsValid.of_mem_steps {flow : Flow} (h : flow.IsValid) {step : Step}
    (hstep : step ∈ flow.steps) : step.IsValid := by
  rcases List.mem_append.mp hstep with hstep | hstep
  · rcases List.mem_append.mp hstep with hstep | hstep
    · exact h.precondition step hstep
    · obtain ⟨group, hgroup, hstep⟩ := List.mem_flatMap.mp hstep
      exact h.items group hgroup step hstep
  · exact h.postcondition step hstep

/-- The endpoint of a step of a valid flow is filled to a text that is not empty, as long as no
value that is put in is empty. The URL of its request is empty just if that text is slashes and
nothing else, and there is no query. -/
theorem Flow.url_isEmpty_iff {draft : FlowDraft} {flow : Flow} (hflow : draft.validate = .ok flow)
    {step : Step} (hstep : step ∈ flow.steps)
    (hvalues : ∀ name value, IsToken name step.request.endpoint.toList →
      param? step.request.params (String.ofList name) = some value → value.plainText ≠ "")
    {ref : StepRef} {settings : Settings} {session later : Session} {stmt : Stmt}
    (h : (step.request.compile ref).runFrom settings session = (.ok stmt, later)) :
    ∃ url, stmt = .const ref.resultVar (.call ("http." ++ step.request.method.lower)
        (.str url :: step.request.arguments)) ∧
      step.request.filled ≠ "" ∧
      (url.isEmpty ↔
        step.request.query = [] ∧ ∀ c ∈ step.request.filled.toList, c = '/') := by
  have hvalid : flow.IsValid := (FlowDraft.validate_eq_ok_iff.mp hflow).2
  have hendpoint : step.request.endpoint ≠ "" := by
    intro hempty
    refine (hvalid.of_mem_steps hstep).request.endpoint ?_
    rw [hempty]
    rfl
  exact ⟨step.request.urlTemplate, (step.request.performs_compile ref).eq_of_ok h,
    filled_ne_empty hendpoint hvalues, step.request.isEmpty_urlTemplate_iff⟩

def visitFlow (endpoint : String) (params : List Pair) : FlowDraft :=
  StepDraft.alone {
    kind := "api"
    sleep := none
    assignments := []
    request := some ⟨endpoint, "GET", none, [], [], params, [], none, [], none⟩
    response := none }

def visitStep (endpoint : String) (params : List Pair) : Step where
  sleep := none
  assignments := []
  request := ⟨endpoint, .get, none, [], [], params, [], none, [], none⟩
  response := none

theorem url_isEmpty_visitFlow :
    ∃ flow stmt later url,
      (visitFlow "/:root/:id/" [⟨"root", .string "/"⟩]).validate = .ok flow ∧
      ((visitStep "/:root/:id/" [⟨"root", .string "/"⟩]).request.compile
        (.precondition 0)).runFrom {} .start = (.ok stmt, later) ∧
      stmt = .const "req_0" (.call "http.get" [.str url]) ∧ ¬url.isEmpty := by
  obtain ⟨stmt, later, hrun⟩ := exists_runFrom_eq_ok
    (show (((visitStep "/:root/:id/" [⟨"root", .string "/"⟩]).request.compile
      (.precondition 0)).runFrom {} .start).1.isOk by decide +kernel)
  have hvalues : ∀ name value, IsToken name "/:root/:id/".toList →
      param? [⟨"root", .string "/"⟩] (String.ofList name) = some value →
        value.plainText ≠ "" := by
    intro name value _ hparam
    obtain ⟨pair, hpair, rfl⟩ := Option.map_eq_some_iff.mp hparam
    obtain rfl := List.mem_singleton.mp (List.mem_of_find?_eq_some hpair)
    rw [Ne, Json.plainText_eq_empty_iff]
    simp
  obtain ⟨url, hstmt, -, hempty⟩ := Flow.url_isEmpty_iff
    (show (visitFlow "/:root/:id/" [⟨"root", .string "/"⟩]).validate =
      .ok ⟨.none, [visitStep "/:root/:id/" [⟨"root", .string "/"⟩]], [], []⟩ from rfl)
    (List.mem_singleton_self _) hvalues hrun
  have hcolon : ':' ∈ (visitStep "/:root/:id/" [⟨"root", .string "/"⟩]).request.filled.toList := by
    rw [Request.filled, filled, String.toList_ofList]
    decide +kernel
  refine ⟨_, stmt, later, url, rfl, hrun, hstmt, ?_⟩
  rw [hempty]
  rintro ⟨-, hslashes⟩
  exact absurd (hslashes ':' hcolon) (by decide)

/-- An endpoint of two slashes is valid, and nothing of it is left in the URL. -/
theorem url_isEmpty_slashes :
    ∃ flow stmt later,
      (visitFlow "//" []).validate = .ok flow ∧ visitStep "//" [] ∈ flow.steps ∧
      ((visitStep "//" []).request.compile (.precondition 0)).runFrom {} .start =
        (.ok stmt, later) ∧
      stmt = .const "req_0" (.call "http.get" [.str ⟨[]⟩]) := by
  obtain ⟨stmt, later, hrun⟩ := exists_runFrom_eq_ok
    (show (((visitStep "//" []).request.compile (.precondition 0)).runFrom {} .start).1.isOk by
      decide +kernel)
  refine ⟨⟨.none, [visitStep "//" []], [], []⟩, stmt, later, rfl, List.mem_singleton_self _,
    hrun, ?_⟩
  rw [(Request.performs_compile _ _).eq_of_ok hrun]
  have hurl : (visitStep "//" []).request.urlTemplate = ⟨[]⟩ := by decide +kernel
  rw [Request.stmt, hurl]
  rfl

end FlowScript
