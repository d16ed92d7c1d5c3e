import FlowScript.Json.Decode

/-!
Decoding of records. A record is an object whose members set its fields, or an array of its fields
in order. Each field has one or more names and may be given once; members with other names are
passed over unless the record collects them.
-/

namespace FlowScript.Json

/-- A field of a record: its names, of which the first appears in messages, and how a document sets
it. -/
structure Field (α : Type) where
  names : List String
  required : Bool
  assign : Depth → Doc → α → Except Fault α

namespace Field

def named {α β : Type} (names : List String) (decode : Decoder β) (set : β → α → α) : Field α where
  names := names
  required := false
  assign depth doc record := (set · record) <$> decode depth doc

def needed {α β : Type} (names : List String) (decode : Decoder β) (set : β → α → α) : Field α :=
  { named names decode set with required := true }

def name {α : Type} (field : Field α) : String :=
  field.names.headD ""

end Field

/-- The fields of a record, in order, and what a record without any of them is. -/
structure Record (α : Type) where
  name : String
  blank : α
  fields : List (Field α)
  /-- What a member of another name does. -/
  other : String → Depth → Doc → α → Except Fault α := fun _ _ doc record => do
    doc.skip
    return record
  positional : Bool := true

namespace Record

variable {α : Type}

def field? (shape : Record α) (name : String) : Option (Field α) :=
  shape.fields.find? (·.names.contains name)

/-- Sets fields from the members of an object. `given` holds the names of the fields set so far. -/
def readMembers (shape : Record α) (depth : Depth) :
    List (Key × Doc) → List String → α → Except Fault (List String × α)
  | [], given, record => .ok (given, record)
  | (key, doc) :: rest, given, record => do
    let name ← key.name
    match shape.field? name with
    | none => shape.readMembers depth rest given (← shape.other name depth doc record)
    | some field =>
      if given.contains field.name then throw ⟨.duplicateField field.name, key.after⟩
      shape.readMembers depth rest (field.name :: given) (← field.assign depth doc record)

def missing? (shape : Record α) (given : List String) : Option (Field α) :=
  shape.fields.find? fun field => field.required && !given.contains field.name

def lengthText (shape : Record α) : String :=
  "struct " ++ shape.name ++ " with " ++ toString shape.fields.length ++ " elements"

def readItems (shape : Record α) (depth : Depth) (ending : Ending) :
    Nat → List (Field α) → List Doc → α → Except Fault α
  | _, [], [], record => do
    let _ ← ending.ofFullArray
    return record
  | _, [], item :: _, _ => .error ⟨.trailingCharacters, item.start + 1⟩
  | index, field :: fields, [], record => do
    let after ← ending.ofArray
    if field.required then throw ⟨.invalidLength index shape.lengthText, after⟩
    shape.readItems depth ending (index + 1) fields [] record
  | index, field :: fields, item :: items, record => do
    shape.readItems depth ending (index + 1) fields items (← field.assign depth item record)

def decode (shape : Record α) : Decoder α
  | depth, .object start members ending => do
    let (given, record) ← shape.readMembers (← depth.enter start) members [] shape.blank
    let after ← ending.ofObject
    match shape.missing? given with
    | some field => throw ⟨.missingField field.name, after⟩
    | none => return record
  | depth, .array start items ending =>
    if shape.positional then do
      shape.readItems (← depth.enter start) ending 0 shape.fields items shape.blank
    else .error (Doc.mismatch ("struct " ++ shape.name) (.array start items ending))
  | _, doc => .error (doc.mismatch ("struct " ++ shape.name))

end Record

def decodeText {α : Type} (decode : Decoder α) (text : String) : Except Fault α := do
  let (doc, stop) := Doc.ofText text
  let value ← decode Depth.full doc
  match stop with
  | some cur => if cur.rest.isEmpty then return value else throw (cur.peekFault .trailingCharacters)
  | none => return value

end FlowScript.Json
