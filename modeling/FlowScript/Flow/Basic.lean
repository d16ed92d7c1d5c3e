import FlowScript.Flow.Options
import FlowScript.Text.Ascii
import FlowScript.Text.Blank

/-!
Load-test flows: requests with their checks and bindings, in steps, in groups. A flow of this form
has been validated as far as its types can say.
-/

namespace FlowScript

inductive Method where
  | get
  | post
  | patch
  | put
  | delete
  deriving DecidableEq, Repr

namespace Method

def all : List Method := [.get, .post, .patch, .put, .delete]

def upper : Method → String
  | .get => "GET"
  | .post => "POST"
  | .patch => "PATCH"
  | .put => "PUT"
  | .delete => "DELETE"

def lower : Method → String
  | .get => "get"
  | .post => "post"
  | .patch => "patch"
  | .put => "put"
  | .delete => "delete"

def hasBodyArgument : Method → Bool
  | .get => false
  | _ => true

def ofText? (text : String) : Option Method :=
  all.find? fun method => Text.equalIgnoringCase method.upper (Text.trim text)

end Method

inductive AuthKind where
  | bearer
  | basic
  | digest
  | ntlm
  deriving DecidableEq, Repr

namespace AuthKind

def all : List AuthKind := [.bearer, .basic, .digest, .ntlm]

def name : AuthKind → String
  | .bearer => "bearer"
  | .basic => "basic"
  | .digest => "digest"
  | .ntlm => "ntlm"

def ofText? (text : String) : Option AuthKind :=
  all.find? fun kind => kind.name == Text.lowerAscii (Text.trim text)

/-- The word for the kind that the runtime knows. It has none for bearer tokens, which go into a
header. -/
def mode? : AuthKind → Option String
  | .bearer => none
  | kind => some kind.name

end AuthKind

inductive ResponseKind where
  | text
  | json
  deriving DecidableEq, Repr

namespace ResponseKind

def name : ResponseKind → String
  | .text => "text"
  | .json => "json"

def ofText? (text : String) : Option ResponseKind :=
  [ResponseKind.text, .json].find? fun kind => kind.name == Text.lowerAscii (Text.trim text)

end ResponseKind

structure Pair where
  key : String
  value : Json
  deriving Repr

structure AuthDatum where
  key : String
  value : Json
  valueType : Option String
  deriving Repr

structure Auth where
  kind : AuthKind
  data : List AuthDatum
  deriving Repr

structure Tag where
  name : String
  stage : Option String
  deriving DecidableEq, Repr

structure Request where
  endpoint : String
  method : Method
  auth : Option Auth
  headers : List Pair
  cookies : List Pair
  params : List Pair
  query : List Pair
  body : Option (List (String × Json))
  tags : List Tag
  timeout : Option Binary64
  deriving Repr

/-- A rule that a response is declared to obey. It does not enter the script. -/
structure ValidationRule where
  reference : String
  rule : String
  deriving DecidableEq, Repr

structure Check where
  name : Option String
  path : Option String
  value : Json
  deriving Repr

/-- The label of a check in the runtime: its name, else its path. -/
def Check.label (check : Check) : String :=
  (check.name <|> check.path).getD ""

structure Response where
  kind : ResponseKind
  validate : List ValidationRule
  checks : List Check
  deriving Repr

structure Assignment where
  name : String
  path : String
  deriving DecidableEq, Repr

structure Step where
  sleep : Option Binary64
  assignments : List Assignment
  request : Request
  response : Option Response
  deriving Repr

structure Group where
  name : Option String
  steps : List Step
  deriving Repr

structure Flow where
  options : ExecutionOptions
  precondition : List Step
  postcondition : List Step
  items : List Group
  deriving Repr

end FlowScript
