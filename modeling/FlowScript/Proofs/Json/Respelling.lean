import FlowScript.Proofs.Json.Places

/-! The liberties that a document leaves to whoever writes it. A form says where in a document a
record is read. There the members may stand in another order and under another of their names, and
members that are not read may be added; but no field may be given twice. A form describes documents
alone; what a decoder has to do with it is said apart. -/

namespace FlowScript.Json

structure Form where
  /-- The second document is the first one, written in another way. -/
  Respells : Doc → Doc → Prop
  /-- A record in the document gives one of its fields twice. -/
  Repeats : Doc → Prop
  respells_of_bare : ∀ {doc doc'}, doc.bare = doc'.bare → Respells doc doc'

structure FieldForm where
  names : List String
  form : Form

def FieldForm.Spells (field : FieldForm) (key : Key) : Prop :=
  ∃ name ∈ field.names, key.name = .ok name

namespace Form

def plain : Form where
  Respells doc doc' := doc.bare = doc'.bare
  Repeats _ := False
  respells_of_bare h := h

/-- A document in which no field may be given twice, without any other liberty. -/
def strict (form : Form) : Form :=
  { plain with Repeats := form.Repeats }

def optional (form : Form) : Form where
  Respells doc doc' := doc.isNull = doc'.isNull ∧ form.Respells doc doc'
  Repeats doc := doc.isNull = false ∧ form.Repeats doc
  respells_of_bare {doc doc'} h :=
    ⟨by rw [← doc.isNull_bare, h, doc'.isNull_bare], form.respells_of_bare h⟩

section Lists

inductive RespellsList (form : Form) : Doc → Doc → Prop
  | array {start start' : Nat} {items items' : List Doc} {ending ending' : Ending}
      (hitems : List.Forall₂ form.Respells items items') :
      RespellsList form (.array start items ending) (.array start' items' ending')
  | other {doc doc' : Doc} (hkind : ∀ start items ending, doc ≠ .array start items ending)
      (hsame : doc.bare = doc'.bare) : RespellsList form doc doc'

inductive RepeatsList (form : Form) : Doc → Prop
  | item {start : Nat} {items : List Doc} {ending : Ending} {item : Doc} (hitem : item ∈ items)
      (hrepeats : form.Repeats item) : RepeatsList form (.array start items ending)

theorem respells_of_bareItems (form : Form) {items items' : List Doc}
    (h : Doc.bareItems items = Doc.bareItems items') : List.Forall₂ form.Respells items items' := by
  induction items generalizing items' with
  | nil =>
    cases items' with
    | nil => exact .nil
    | cons => simp [Doc.bareItems] at h
  | cons item rest ih =>
    cases items' with
    | nil => simp [Doc.bareItems] at h
    | cons =>
      obtain ⟨hitem, hrest⟩ := List.cons.inj h
      exact .cons (form.respells_of_bare hitem) (ih hrest)

def list (form : Form) : Form where
  Respells := RespellsList form
  Repeats := RepeatsList form
  respells_of_bare {doc doc'} h := by
    by_cases harray : ∃ start items ending, doc = .array start items ending
    · obtain ⟨start, items, ending, rfl⟩ := harray
      cases doc' <;> simp only [Doc.bare, reduceCtorEq, Doc.array.injEq] at h
      exact .array (form.respells_of_bareItems h.2.1)
    · push Not at harray
      exact .other harray h

end Lists

section Records

variable (fields : List FieldForm)

/-- Another way to write a member. A field may change its name; a member that is not read stays as
it is. -/
inductive RespellsMember : Key × Doc → Key × Doc → Prop
  | field {field : FieldForm} {key key' : Key} {doc doc' : Doc} (hfield : field ∈ fields)
      (hkey : field.Spells key) (hkey' : field.Spells key') (hdoc : field.form.Respells doc doc') :
      RespellsMember (key, doc) (key', doc')
  | unread {key key' : Key} {doc doc' : Doc} (hkey : ∀ field ∈ fields, ¬ field.Spells key)
      (hname : key.name.toOption = key'.name.toOption) (hsame : doc.bare = doc'.bare) :
      RespellsMember (key, doc) (key', doc')

def IsExtra (key : Key) : Prop :=
  (∃ name, key.name = .ok name) ∧ ∀ field ∈ fields, ¬ field.Spells key

inductive RespellsItems : List FieldForm → List Doc → List Doc → Prop
  | nil {fields : List FieldForm} : RespellsItems fields [] []
  | cons {field : FieldForm} {fields : List FieldForm} {item item' : Doc} {items items' : List Doc}
      (hitem : field.form.Respells item item') (hitems : RespellsItems fields items items') :
      RespellsItems (field :: fields) (item :: items) (item' :: items')
  | surplus {items items' : List Doc} (hsame : Doc.bareItems items = Doc.bareItems items') :
      RespellsItems [] items items'

inductive RespellsRecord : Doc → Doc → Prop
  | object {start start' : Nat} {members renamed extra members' : List (Key × Doc)}
      {ending ending' : Ending} (hrenamed : List.Forall₂ (RespellsMember fields) members renamed)
      (hextra : ∀ member ∈ extra, IsExtra fields member.1)
      (horder : (renamed ++ extra).Perm members') :
      RespellsRecord (.object start members ending) (.object start' members' ending')
  | array {start start' : Nat} {items items' : List Doc} {ending ending' : Ending}
      (hitems : RespellsItems fields items items') :
      RespellsRecord (.array start items ending) (.array start' items' ending')
  | other {doc doc' : Doc} (hobject : ∀ start members ending, doc ≠ .object start members ending)
      (harray : ∀ start items ending, doc ≠ .array start items ending)
      (hsame : doc.bare = doc'.bare) : RespellsRecord doc doc'

inductive RepeatsRecord : Doc → Prop
  | twice {start : Nat} {members : List (Key × Doc)} {ending : Ending} {first second : Key × Doc}
      {field : FieldForm} (hfield : field ∈ fields) (hfirst : field.Spells first.1)
      (hsecond : field.Spells second.1) (hmembers : [first, second].Sublist members) :
      RepeatsRecord (.object start members ending)
  | member {start : Nat} {members : List (Key × Doc)} {ending : Ending} {key : Key} {doc : Doc}
      {field : FieldForm} (hfield : field ∈ fields) (hkey : field.Spells key)
      (hmember : (key, doc) ∈ members) (hrepeats : field.form.Repeats doc) :
      RepeatsRecord (.object start members ending)
  | item {start : Nat} {items : List Doc} {ending : Ending} {item : Doc} {field : FieldForm}
      (hitem : (field, item) ∈ fields.zip items) (hrepeats : field.form.Repeats item) :
      RepeatsRecord (.array start items ending)

theorem respells_of_bareMembers {members members' : List (Key × Doc)}
    (h : Doc.bareMembers members = Doc.bareMembers members') :
    List.Forall₂ (RespellsMember fields) members members' := by
  induction members generalizing members' with
  | nil =>
    cases members' with
    | nil => exact .nil
    | cons => simp [Doc.bareMembers] at h
  | cons member rest ih =>
    cases members' with
    | nil => simp [Doc.bareMembers] at h
    | cons member' rest' =>
      simp only [Doc.bareMembers, Key.bare, List.cons.injEq, Prod.mk.injEq, Key.mk.injEq] at h
      obtain ⟨⟨⟨hname, -⟩, hdoc⟩, hrest⟩ := h
      have hname : member.1.name.toOption = member'.1.name.toOption := by
        rw [← toOption_bareResult, hname, toOption_bareResult]
      refine .cons ?_ (ih hrest)
      by_cases hread : ∃ field ∈ fields, field.Spells member.1
      · obtain ⟨field, hfield, name, hmem, hkey⟩ := hread
        have hkey' : member'.1.name = .ok name := by
          rw [← toOption_eq_some, ← hname, hkey]
          rfl
        exact .field hfield ⟨name, hmem, hkey⟩ ⟨name, hmem, hkey'⟩
          (field.form.respells_of_bare hdoc)
      · push Not at hread
        exact .unread hread hname hdoc

theorem respellsItems_of_bare {items items' : List Doc}
    (h : Doc.bareItems items = Doc.bareItems items') : RespellsItems fields items items' := by
  induction fields generalizing items items' with
  | nil => exact .surplus h
  | cons field fields ih =>
    cases items with
    | nil =>
      cases items' with
      | nil => exact .nil
      | cons => simp [Doc.bareItems] at h
    | cons item rest =>
      cases items' with
      | nil => simp [Doc.bareItems] at h
      | cons item' rest' =>
        obtain ⟨hitem, hrest⟩ := List.cons.inj h
        exact .cons (field.form.respells_of_bare hitem) (ih hrest)

theorem respellsRecord_of_bare {doc doc' : Doc} (h : doc.bare = doc'.bare) :
    RespellsRecord fields doc doc' := by
  cases doc with
  | object start members ending =>
    cases doc' <;> simp only [Doc.bare, reduceCtorEq, Doc.object.injEq] at h
    have hrenamed := respells_of_bareMembers fields h.2.1
    exact .object hrenamed (by simp) (.of_eq (List.append_nil _))
  | array start items ending =>
    cases doc' <;> simp only [Doc.bare, reduceCtorEq, Doc.array.injEq] at h
    exact .array (respellsItems_of_bare fields h.2.1)
  | _ => exact .other (by simp) (by simp) h

def record : Form where
  Respells := RespellsRecord fields
  Repeats := RepeatsRecord fields
  respells_of_bare := respellsRecord_of_bare fields

end Records

end Form

end FlowScript.Json
