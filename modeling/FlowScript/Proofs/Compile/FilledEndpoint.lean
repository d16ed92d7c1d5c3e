import FlowScript.Proofs.Compile.Reads
import FlowScript.Proofs.Template.Seams

/-! The variables of a filled endpoint. An endpoint is literal text around the tokens that have a
parameter. If no placeholder goes on across the end of a literal text or of a value, the variables of
the URL are those of the literal texts and of the values, each read by itself. -/

namespace FlowScript

open Template Compile

namespace Endpoint

/-- A path token with a parameter, the value that takes its place, and the literal text behind it. -/
structure Inset where
  token : List Char
  value : Json
  literal : List Char

structure Cut where
  first : List Char
  insets : List Inset

namespace Cut

def prepend (cs : List Char) (cut : Cut) : Cut := { cut with first := cs ++ cut.first }

def spelling (cut : Cut) : List Char :=
  cut.first ++ cut.insets.flatMap fun inset => ':' :: (inset.token ++ inset.literal)

def parts (cut : Cut) : List (List Char) :=
  cut.first :: cut.insets.flatMap fun inset => [inset.value.plainText.toList, inset.literal]

end Cut

/-- A token without a parameter is literal text. -/
def cutPieces (params : List Pair) : List Piece → Cut
  | [] => ⟨[], []⟩
  | .text cs :: rest => (cutPieces params rest).prepend cs
  | .token name :: rest =>
    match param? params (String.ofList name) with
    | none => (cutPieces params rest).prepend (':' :: name)
    | some value =>
      let behind := cutPieces params rest
      ⟨[], ⟨name, value, behind.first⟩ :: behind.insets⟩

def cut (endpoint : String) (params : List Pair) : Cut :=
  cutPieces params (pieces endpoint.toList)

theorem spelling_prepend (cs : List Char) (cut : Cut) :
    (cut.prepend cs).spelling = cs ++ cut.spelling := by
  simp [Cut.prepend, Cut.spelling]

theorem flatten_parts_prepend (cs : List Char) (cut : Cut) :
    (cut.prepend cs).parts.flatten = cs ++ cut.parts.flatten := by
  simp [Cut.prepend, Cut.parts]

theorem spelling_cutPieces (params : List Pair) (all : List Piece) :
    (cutPieces params all).spelling = all.flatMap Piece.spelling := by
  induction all with
  | nil => rfl
  | cons piece rest ih =>
    rw [List.flatMap_cons, ← ih]
    cases piece with
    | text cs => rw [cutPieces, spelling_prepend]; rfl
    | token name =>
      rw [cutPieces]
      cases param? params (String.ofList name) with
      | none => exact spelling_prepend _ _
      | some value => simp [Cut.spelling, Piece.spelling]

theorem flatten_parts_cutPieces (params : List Pair) (all : List Piece) :
    (cutPieces params all).parts.flatten = all.flatMap (replacement params) := by
  induction all with
  | nil => rfl
  | cons piece rest ih =>
    rw [List.flatMap_cons, ← ih]
    cases piece with
    | text cs => rw [cutPieces, flatten_parts_prepend]; rfl
    | token name =>
      rw [cutPieces, replacement]
      cases param? params (String.ofList name) with
      | none => exact flatten_parts_prepend _ _
      | some value => simp [Cut.parts]

def matched? (params : List Pair) : Piece → Option (List Char × Json)
  | .text _ => none
  | .token name => (param? params (String.ofList name)).map (name, ·)

theorem insets_cutPieces (params : List Pair) (all : List Piece) :
    (cutPieces params all).insets.map (fun inset => (inset.token, inset.value)) =
      all.filterMap (matched? params) := by
  induction all with
  | nil => rfl
  | cons piece rest ih =>
    rw [List.filterMap_cons, ← ih]
    cases piece with
    | text cs => rfl
    | token name =>
      rw [cutPieces, matched?]
      cases param? params (String.ofList name) with
      | none => rfl
      | some value => rfl

end Endpoint

open Endpoint

namespace Request

def cut (request : Request) : Cut := Endpoint.cut request.endpoint request.params

def pathText (request : Request) : String :=
  Text.trimEnd '/' (String.ofList request.cut.parts.flatten)

theorem ofList_flatten_parts_cut (request : Request) :
    String.ofList request.cut.parts.flatten = request.filled := by
  have hparts := flatten_parts_cutPieces request.params (pieces request.endpoint.toList)
  exact congrArg String.ofList hparts

theorem varNames_pathText {request : Request} (h : AllApart request.cut.parts) :
    (Template.parse request.pathText).varNames = request.cut.parts.flatMap namesIn := by
  have hflatten := namesIn_flatten h
  rw [varNames_parse, pathText, placeholders_trimEnd_slash, ← hflatten]
  change namesIn (String.ofList request.cut.parts.flatten).toList = _
  rw [String.toList_ofList]

theorem flatMap_namesIn_parts (cut : Cut) :
    cut.parts.flatMap namesIn =
      (Template.parse (String.ofList cut.first)).varNames ++ cut.insets.flatMap fun inset =>
        (Template.parse inset.value.plainText).varNames ++
          (Template.parse (String.ofList inset.literal)).varNames := by
  have hnames (cs : List Char) : (Template.parse (String.ofList cs)).varNames = namesIn cs := by
    rw [varNames_parse]
    change namesIn (String.ofList cs).toList = _
    rw [String.toList_ofList]
  have hvalue (value : Json) :
      (Template.parse value.plainText).varNames = namesIn value.plainText.toList :=
    varNames_parse value.plainText
  simp only [Cut.parts, List.flatMap_cons, List.flatMap_assoc, List.flatMap_nil, List.append_nil,
    hnames, hvalue]

variable {settings : Settings}

/-- The endpoint is literal text around its tokens with a parameter. The path of a URL is read from
the literal texts and the values put in between them. If no placeholder goes on across a seam, that
is, if every dollar sign is read as it is in its own text, then the path reads what each of the texts
reads by itself, in order. -/
theorem url_reads_of_allApart {request : Request} {ref : StepRef} {session later : Session}
    {url : Template} (h : (request.url ref).runFrom settings session = (.ok url, later)) :
    request.cut.spelling = request.endpoint.toList ∧
    request.cut.insets.map (fun inset => (inset.token, inset.value)) =
      (pieces request.endpoint.toList).filterMap (matched? request.params) ∧
    url = appendQuery request.query "?" (.parse request.pathText) ∧
    (AllApart request.cut.parts ↔
      signs request.cut.parts.flatten = request.cut.parts.flatMap signs) ∧
    (AllApart request.cut.parts →
      (Template.parse request.pathText).varNames =
        (Template.parse (String.ofList request.cut.first)).varNames ++
          request.cut.insets.flatMap fun inset =>
            (Template.parse inset.value.plainText).varNames ++
              (Template.parse (String.ofList inset.literal)).varNames) := by
  have hurl := (request.performs_url ref).eq_of_ok h
  refine ⟨?_, ?_, ?_, allApart_iff, ?_⟩
  · exact (spelling_cutPieces _ _).trans (flatMap_spelling_pieces _)
  · exact insets_cutPieces _ _
  · rw [hurl, urlTemplate, pathText, ofList_flatten_parts_cut]
  · intro hapart
    rw [varNames_pathText hapart, flatMap_namesIn_parts]

end Request

def requestOf (endpoint key value : String) : Request where
  endpoint
  method := .get
  auth := none
  headers := []
  cookies := []
  params := [⟨key, .string value⟩]
  query := []
  body := none
  tags := []
  timeout := none

theorem url_reads_dashedRequest :
    ∃ url later,
      ((requestOf "/by/$team:rest/" "rest" "-$id").url (.precondition 0)).runFrom {} .start =
        (.ok url, later) ∧
      AllApart (requestOf "/by/$team:rest/" "rest" "-$id").cut.parts ∧
      url.varNames = ["team", "id"] := by
  obtain ⟨url, later, hrun⟩ := exists_runFrom_eq_ok
    (show (((requestOf "/by/$team:rest/" "rest" "-$id").url (.precondition 0)).runFrom {}
      .start).1.isOk by decide +kernel)
  have hapart : AllApart (requestOf "/by/$team:rest/" "rest" "-$id").cut.parts :=
    allApart_iff.mpr (by decide +kernel)
  obtain ⟨-, -, hurl, -, hreads⟩ := Request.url_reads_of_allApart hrun
  refine ⟨url, later, hrun, hapart, ?_⟩
  rw [hurl]
  change (Template.parse (Request.pathText _)).varNames = _
  rw [hreads hapart]
  decide +kernel

/-- The name in front of the token goes on in the value: the URL reads `users`, where the endpoint
reads `user`. -/
theorem url_absorbs_suffix :
    ∃ url later,
      ((requestOf "/$user:suffix" "suffix" "s").url (.precondition 0)).runFrom {} .start =
        (.ok url, later) ∧
      url.varNames = ["users"] ∧
      (requestOf "/$user:suffix" "suffix" "s").cut.parts =
        ["/$user".toList, "s".toList, []] ∧
      (Template.parse "/$user").varNames ++ (Template.parse "s").varNames ++
        (Template.parse "").varNames = ["user"] := by
  obtain ⟨url, later, hrun⟩ := exists_runFrom_eq_ok
    (show (((requestOf "/$user:suffix" "suffix" "s").url (.precondition 0)).runFrom {}
      .start).1.isOk by decide +kernel)
  have hurl := (Request.performs_url _ _).eq_of_ok hrun
  refine ⟨url, later, hrun, ?_, by decide +kernel, by decide +kernel⟩
  rw [hurl]
  decide +kernel

end FlowScript
