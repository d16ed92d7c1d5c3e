import FlowScript.Compile.Endpoint
import FlowScript.Compile.Session
import FlowScript.Script.Syntax

/-!
Requests as calls of the runtime. A call is `http.<method>(url, body, params)`: methods other than
GET have a place for the body, which holds a form-encoded body or null; any other body goes into the
object of parameters. Both arguments are left out when nothing follows.
-/

namespace FlowScript

open Text

def valueEntry (key : String) (value : Json) : String × Expr :=
  (key, .str (.parse value.plainText))

def Pair.entry (pair : Pair) : String × Expr :=
  valueEntry pair.key pair.value

namespace Request

def missingToken (ref : StepRef) (token : String) : Compile Unit := do
  match (← read).strictness with
  | .strict => throw (.unresolvedPathToken ref token)
  | .permissive =>
    Compile.report ⟨.warn, "endpoint token has no params entry, left as-is",
      [("step", ref.display), ("token", token)]⟩

/-- The entries of a query, each after a question mark or an ampersand. Keys are literal. -/
def appendQuery : List Pair → String → Template → Template
  | [], _, url => url
  | pair :: rest, separator, url =>
    appendQuery rest "&" <|
      (url.pushText separator).pushText (pair.key ++ "=") ++ Template.parse pair.value.plainText

/-- The URL of a request: the filled endpoint without slashes at its end, and the query. -/
def url (request : Request) (ref : StepRef) : Compile Template := do
  let filled ← Endpoint.fill request.endpoint request.params (missingToken ref)
  return appendQuery request.query "?" (.parse (trimEnd '/' filled))

def formType : String := "application/x-www-form-urlencoded"

def isFormEncoded (request : Request) : Bool :=
  request.headers.any fun header =>
    equalIgnoringCase header.key "content-type" &&
      contains (lowerAscii header.value.plainText) formType

/-- The body as an object. An empty body counts as none. -/
def bodyExpr? (request : Request) : Option Expr :=
  match request.body with
  | none | some [] => none
  | some members => some (.object (members.map fun (key, value) => valueEntry key value))

def hasPositionalBody (request : Request) : Bool :=
  request.isFormEncoded && request.method.hasBodyArgument

def bearer? (request : Request) : Option Json :=
  match request.auth with
  | some ⟨.bearer, datum :: _⟩ => some datum.value
  | _ => none

def authEntry (request : Request) : List (String × Expr) :=
  match request.auth.bind (·.kind.mode?) with
  | some mode => [("auth", .text mode)]
  | none => []

def bearerEntry (request : Request) : List (String × Expr) :=
  match request.bearer? with
  | some value =>
    [("Authorization", .str (.literal "Bearer " ++ .parse value.plainText))]
  | none => []

/-- An entry that holds an object, unless the object would be empty. -/
def objectEntry (key : String) : List (String × Expr) → List (String × Expr)
  | [] => []
  | entries => [(key, .object entries)]

def tagEntries (tag : Tag) : List (String × Expr) :=
  ("name", .text tag.name) :: (tag.stage.map fun stage => ("stage", .text stage)).toList

def timeoutEntry (request : Request) : List (String × Expr) :=
  (request.timeout.map fun seconds => ("timeout", Expr.text (secondsText seconds ++ "s"))).toList

def paramEntries (request : Request) (body : Option Expr) : List (String × Expr) :=
  request.authEntry ++
  objectEntry "headers" (request.bearerEntry ++ request.headers.map Pair.entry) ++
  objectEntry "cookies" (request.cookies.map Pair.entry) ++
  (body.map fun body => ("body", body)).toList ++
  objectEntry "tags" (request.tags.flatMap tagEntries) ++
  request.timeoutEntry

def arguments (request : Request) : List Expr :=
  let body := request.bodyExpr?
  let positional := if request.hasPositionalBody then body else none
  let params :=
    match request.paramEntries (if request.hasPositionalBody then none else body) with
    | [] => []
    | entries => [Expr.object entries]
  if request.method.hasBodyArgument then
    match positional, params with
    | some body, _ => body :: params
    | none, [] => []
    | none, _ => .ident "null" :: params
  else params

def compile (request : Request) (ref : StepRef) : Compile Stmt := do
  let url ← request.url ref
  return .const ref.resultVar
    (.call ("http." ++ request.method.lower) (.str url :: request.arguments))

end Request

end FlowScript
