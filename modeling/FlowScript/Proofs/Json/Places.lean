import FlowScript.Proofs.Json.Members

/-! Documents without their places. Places matter to the faults of a decoder alone: what a decoder
makes of a document is the same without them. -/

namespace FlowScript.Json

def bareResult {α : Type} : Except Fault α → Except Fault α
  | .ok a => .ok a
  | .error _ => .error ⟨.eofInValue, 0⟩

def Key.bare (key : Key) : Key :=
  ⟨bareResult key.name, 0⟩

def Ending.bare : Ending → Ending
  | .closed _ => .closed 0
  | .stopped .. | .brokenKey .. => .stopped .first 0 none

namespace Doc

mutual

def bare : Doc → Doc
  | .null _ _ => .null 0 0
  | .bool _ b _ => .bool 0 b 0
  | .number _ value _ => .number 0 (bareResult value) 0
  | .string _ value _ => .string 0 (bareResult value) 0
  | .array _ items ending => .array 0 (bareItems items) ending.bare
  | .object _ members ending => .object 0 (bareMembers members) ending.bare
  | .broken _ _ _ => .broken 0 ⟨.eofInValue, 0⟩ ⟨.eofInValue, 0⟩

def bareItems : List Doc → List Doc
  | [] => []
  | item :: rest => item.bare :: bareItems rest

def bareMembers : List (Key × Doc) → List (Key × Doc)
  | [] => []
  | (key, value) :: rest => (key.bare, value.bare) :: bareMembers rest

end

def isNull : Doc → Bool
  | .null _ _ => true
  | _ => false

theorem isNull_iff {doc : Doc} : doc.isNull ↔ ∃ start stop, doc = .null start stop := by
  cases doc <;> simp [isNull]

theorem isNull_bare (doc : Doc) : doc.bare.isNull = doc.isNull := by
  cases doc <;> rfl

end Doc

section Ignored

variable {α β : Type}

@[simp] theorem toOption_bareResult (x : Except Fault α) :
    (bareResult x).toOption = x.toOption := by
  cases x <;> rfl

theorem toOption_enter (depth : Depth) (start : Nat) :
    (depth.enter 0).toOption = (depth.enter start).toOption := by
  unfold Depth.enter
  split <;> rfl

theorem enter_moved {depth inner : Depth} {start : Nat} (start' : Nat)
    (h : depth.enter start = .ok inner) : depth.enter start' = .ok inner := by
  rw [← toOption_eq_some, ← toOption_enter, toOption_enter depth start, h, toOption_ok]

@[simp] theorem map_ofArray_bare (ending : Ending) (a : α) :
    ending.bare.ofArray.toOption.map (fun _ => a) = ending.ofArray.toOption.map fun _ => a := by
  cases ending <;> rfl

@[simp] theorem map_ofObject_bare (ending : Ending) (a : α) :
    ending.bare.ofObject.toOption.map (fun _ => a) = ending.ofObject.toOption.map fun _ => a := by
  cases ending <;> rfl

namespace Doc

mutual

theorem toOption_toJson_bare (depth : Depth) : (doc : Doc) →
    (doc.bare.toJson depth).toOption = (doc.toJson depth).toOption
  | .null _ _ => rfl
  | .bool _ _ _ => rfl
  | .number _ value _ => by cases value <;> rfl
  | .string _ value _ => by cases value <;> rfl
  | .broken _ _ _ => rfl
  | .array start items ending => by
    simp [bare, toJson, toOption_enter depth start,
      fun depth => toOption_itemsToJson_bare depth items]
  | .object start members ending => by
    simp [bare, toJson, toOption_enter depth start,
      fun depth => toOption_membersToJson_bare depth members]

theorem toOption_itemsToJson_bare (depth : Depth) : (items : List Doc) →
    (itemsToJson depth (bareItems items)).toOption = (itemsToJson depth items).toOption
  | [] => rfl
  | item :: rest => by
    simp [bareItems, itemsToJson, toOption_toJson_bare depth item,
      toOption_itemsToJson_bare depth rest]

theorem toOption_membersToJson_bare (depth : Depth) : (members : List (Key × Doc)) →
    (membersToJson depth (bareMembers members)).toOption = (membersToJson depth members).toOption
  | [] => rfl
  | (key, value) :: rest => by
    simp [bareMembers, membersToJson, Key.bare, toOption_toJson_bare depth value,
      toOption_membersToJson_bare depth rest]

end

mutual

theorem toOption_skip_bare : (doc : Doc) → doc.bare.skip.toOption = doc.skip.toOption
  | .null _ _ => rfl
  | .bool _ _ _ => rfl
  | .number _ _ _ => rfl
  | .string _ _ _ => rfl
  | .broken _ _ _ => rfl
  | .array _ items ending => by
    cases ending <;> simp [bare, skip, toOption_skipItems_bare items, Ending.bare,
      Ending.ofSkippedArray]
  | .object _ members ending => by
    cases ending <;> simp [bare, skip, toOption_skipMembers_bare members, Ending.bare,
      Ending.ofSkippedObject]

theorem toOption_skipItems_bare : (items : List Doc) →
    (skipItems (bareItems items)).toOption = (skipItems items).toOption
  | [] => rfl
  | item :: rest => by
    simp [bareItems, skipItems, toOption_skip_bare item, toOption_skipItems_bare rest]

theorem toOption_skipMembers_bare : (members : List (Key × Doc)) →
    (skipMembers (bareMembers members)).toOption = (skipMembers members).toOption
  | [] => rfl
  | (key, value) :: rest => by
    simp [bareMembers, skipMembers, toOption_skip_bare value, toOption_skipMembers_bare rest]

end

end Doc

end Ignored

namespace Decoder

variable {α : Type}

/-- What the decoder makes of a document does not depend on its places. -/
def IgnoresPlaces (decode : Decoder α) : Prop :=
  ∀ depth doc, (decode depth doc.bare).toOption = (decode depth doc).toOption

theorem ignoresPlaces_json : json.IgnoresPlaces :=
  Doc.toOption_toJson_bare

theorem ignoresPlaces_string : string.IgnoresPlaces := by
  intro depth doc
  match doc with
  | .string _ (.ok _) _ => rfl
  | .string _ (.error _) _ | .null .. | .bool .. | .number .. | .array .. | .object ..
  | .broken .. =>
    rfl

theorem ignoresPlaces_natural : natural.IgnoresPlaces := by
  intro depth doc
  match doc with
  | .number _ (.ok (.natural _)) _ | .number _ (.ok (.negative _)) _ | .number _ (.ok (.float _)) _
  | .number _ (.error _) _ | .string .. | .null .. | .bool .. | .array .. | .object ..
  | .broken .. =>
    rfl

theorem ignoresPlaces_float : float.IgnoresPlaces := by
  intro depth doc
  match doc with
  | .number _ (.ok (.natural _)) _ | .number _ (.ok (.negative _)) _ | .number _ (.ok (.float _)) _
  | .number _ (.error _) _ | .string .. | .null .. | .bool .. | .array .. | .object ..
  | .broken .. =>
    rfl

theorem ignoresPlaces_members : members.IgnoresPlaces := by
  intro depth doc
  match doc with
  | .object start all ending =>
    simp [members, Doc.bare, toOption_enter depth start,
      fun depth => Doc.toOption_membersToJson_bare depth all]
  | .number .. | .string .. | .null .. | .bool .. | .array .. | .broken .. => rfl

theorem optional_eq {decode : Decoder α} {depth : Depth} {doc : Doc} (h : doc.isNull = false) :
    decode.optional depth doc = some <$> decode depth doc := by
  cases doc with
  | null start stop => contradiction
  | _ => rfl

theorem IgnoresPlaces.optional {decode : Decoder α} (h : decode.IgnoresPlaces) :
    decode.optional.IgnoresPlaces := by
  intro depth doc
  cases hnull : doc.isNull with
  | true =>
    obtain ⟨start, stop, rfl⟩ := Doc.isNull_iff.mp hnull
    rfl
  | false =>
    rw [optional_eq hnull, optional_eq (by rwa [Doc.isNull_bare]), toOption_map, toOption_map, h]

theorem IgnoresPlaces.decodeItems {decode : Decoder α} (h : decode.IgnoresPlaces) (depth : Depth)
    (items : List Doc) :
    (decodeItems decode depth (Doc.bareItems items)).toOption =
      (Decoder.decodeItems decode depth items).toOption := by
  induction items with
  | nil => rfl
  | cons item rest ih => simp [Doc.bareItems, Decoder.decodeItems, h depth item, ih]

theorem IgnoresPlaces.list {decode : Decoder α} (h : decode.IgnoresPlaces) :
    decode.list.IgnoresPlaces := by
  intro depth doc
  match doc with
  | .array start items ending =>
    simp [Decoder.list, Doc.bare, toOption_enter depth start,
      fun depth => h.decodeItems depth items]
  | .number .. | .string .. | .null .. | .bool .. | .object .. | .broken .. => rfl

end Decoder

namespace Record

variable {α : Type}

structure IgnoresPlaces (shape : Record α) : Prop where
  field : ∀ field ∈ shape.fields, ∀ depth doc record,
    (field.assign depth doc.bare record).toOption = (field.assign depth doc record).toOption
  other : ∀ name depth doc record,
    (shape.other name depth doc.bare record).toOption =
      (shape.other name depth doc record).toOption

variable {shape : Record α}

theorem IgnoresPlaces.step (h : shape.IgnoresPlaces) (depth : Depth)
    (state : Option (Finset String × α)) (key : Key) (doc : Doc) :
    shape.step depth state (key.bare, doc.bare) = shape.step depth state (key, doc) := by
  unfold Record.step
  simp only [Key.bare, toOption_bareResult]
  congr 1
  funext given
  congr 1
  funext name
  cases hfield : shape.field? name with
  | none => simp only [h.other]
  | some field => simp only [h.field field (List.mem_of_find?_eq_some hfield)]

theorem IgnoresPlaces.foldl_step (h : shape.IgnoresPlaces) (depth : Depth)
    (members : List (Key × Doc)) (state : Option (Finset String × α)) :
    (Doc.bareMembers members).foldl (shape.step depth) state =
      members.foldl (shape.step depth) state := by
  induction members generalizing state with
  | nil => rfl
  | cons member rest ih => rw [Doc.bareMembers, List.foldl_cons, List.foldl_cons, h.step, ih]

theorem IgnoresPlaces.readItems (h : shape.IgnoresPlaces) (depth : Depth) (ending : Ending)
    (index : Nat) (fields : List (Field α)) (hfields : ∀ field ∈ fields, field ∈ shape.fields)
    (items : List Doc) (record : α) :
    (shape.readItems depth ending.bare index fields (Doc.bareItems items) record).toOption =
      (shape.readItems depth ending index fields items record).toOption := by
  induction fields generalizing index items record with
  | nil =>
    cases items with
    | nil => cases ending <;> rfl
    | cons item rest => rfl
  | cons field fields ih =>
    obtain ⟨hfield, hfields⟩ := List.forall_mem_cons.mp hfields
    cases items with
    | nil =>
      have hrest := ih (index + 1) hfields [] record
      cases hrequired : field.required <;> cases ending <;>
        simp_all [Record.readItems, Doc.bareItems, Ending.bare, Ending.ofArray]
    | cons item rest =>
      simp [Doc.bareItems, Record.readItems, h.field field hfield, ih _ hfields]

theorem IgnoresPlaces.decode (h : shape.IgnoresPlaces) : shape.decode.IgnoresPlaces := by
  intro depth doc
  match doc with
  | .object start members ending =>
    apply Option.ext
    intro record
    have henter (inner : Depth) : depth.enter 0 = .ok inner ↔ depth.enter start = .ok inner :=
      ⟨enter_moved start, enter_moved 0⟩
    have hclosed : ending.bare.isClosed = ending.isClosed := by cases ending <;> rfl
    simp only [toOption_eq_some, Doc.bare, decode_object_eq_ok_iff, henter, h.foldl_step, hclosed]
  | .array start items ending =>
    have hitems (depth : Depth) :=
      h.readItems depth ending 0 shape.fields (fun _ hmem => hmem) items shape.blank
    cases hpositional : shape.positional with
    | true => simp [Record.decode, Doc.bare, hpositional, toOption_enter depth start, hitems]
    | false => simp [Record.decode, Doc.bare, hpositional]
  | .number .. | .string .. | .null .. | .bool .. | .broken .. => rfl

end Record

theorem Field.ignoresPlaces_named {α β : Type} {names : List String} {decode : Decoder β}
    {set : β → α → α} (h : decode.IgnoresPlaces) (depth : Depth) (doc : Doc) (record : α) :
    ((named names decode set).assign depth doc.bare record).toOption =
      ((named names decode set).assign depth doc record).toOption := by
  simp only [named, toOption_map, h depth doc]

theorem Field.ignoresPlaces_needed {α β : Type} {names : List String} {decode : Decoder β}
    {set : β → α → α} (h : decode.IgnoresPlaces) (depth : Depth) (doc : Doc) (record : α) :
    ((needed names decode set).assign depth doc.bare record).toOption =
      ((needed names decode set).assign depth doc record).toOption := by
  simp only [needed, named, toOption_map, h depth doc]

end FlowScript.Json
