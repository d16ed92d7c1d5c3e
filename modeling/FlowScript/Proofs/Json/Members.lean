import FlowScript.Json.Record
import Mathlib.Data.Finset.Insert
import Mathlib.Data.List.Pairwise
import Mathlib.Data.List.Perm.Basic

/-! What a record takes from the members of an object, one member after the other. The state between
two members is the set of the fields given so far and the record as it stands. Faults are left out:
a record is read, or it is not. -/

namespace FlowScript.Json

section Results

variable {α β : Type}

@[simp] theorem toOption_ok (a : α) : (Except.ok a : Except Fault α).toOption = some a := rfl

@[simp] theorem toOption_error (fault : Fault) :
    (Except.error fault : Except Fault α).toOption = none := rfl

@[simp] theorem toOption_throw (fault : Fault) :
    (throw fault : Except Fault α).toOption = none := rfl

@[simp] theorem toOption_bind (x : Except Fault α) (f : α → Except Fault β) :
    (x >>= f).toOption = x.toOption.bind fun a => (f a).toOption := by
  cases x <;> rfl

@[simp] theorem toOption_map (f : α → β) (x : Except Fault α) :
    (f <$> x).toOption = x.toOption.map f := by
  cases x <;> rfl

theorem toOption_eq_some {x : Except Fault α} {a : α} : x.toOption = some a ↔ x = .ok a := by
  cases x <;> simp

theorem bind_eq_ok_iff {x : Except Fault α} {f : α → Except Fault β} {b : β} :
    x >>= f = .ok b ↔ ∃ a, x = .ok a ∧ f a = .ok b := by
  simp only [← toOption_eq_some, toOption_bind, Option.bind_eq_some_iff]

theorem map_eq_ok_iff {x : Except Fault α} {f : α → β} {b : β} :
    f <$> x = .ok b ↔ ∃ a, x = .ok a ∧ f a = b := by
  simp only [← toOption_eq_some, toOption_map, Option.map_eq_some_iff]

end Results

def Ending.isClosed : Ending → Bool
  | .closed _ => true
  | .stopped .. | .brokenKey .. => false

theorem Ending.ofArray_eq_ok_iff {ending : Ending} :
    (∃ after, ending.ofArray = .ok after) ↔ ending.isClosed := by
  cases ending <;> simp [ofArray, isClosed]

theorem Ending.ofObject_eq_ok_iff {ending : Ending} :
    (∃ after, ending.ofObject = .ok after) ↔ ending.isClosed := by
  cases ending <;> simp [ofObject, isClosed]

namespace Record

variable {α : Type} (shape : Record α) (depth : Depth)

def step (state : Option (Finset String × α)) (member : Key × Doc) :
    Option (Finset String × α) :=
  state.bind fun (given, record) =>
    member.1.name.toOption.bind fun name =>
      match shape.field? name with
      | none => (shape.other name depth member.2 record).toOption.map (given, ·)
      | some field =>
        if field.name ∈ given then none
        else (field.assign depth member.2 record).toOption.map (Insert.insert field.name given, ·)

theorem foldl_step_none (members : List (Key × Doc)) :
    members.foldl (shape.step depth) none = none := by
  induction members with
  | nil => rfl
  | cons member rest ih => exact ih

theorem readMembers_eq_foldl (members : List (Key × Doc)) (given : List String) (record : α) :
    (shape.readMembers depth members given record).toOption.map
        (fun read => (read.1.toFinset, read.2)) =
      members.foldl (shape.step depth) (some (given.toFinset, record)) := by
  induction members generalizing given record with
  | nil => rfl
  | cons member rest ih =>
    obtain ⟨key, doc⟩ := member
    rw [List.foldl_cons, readMembers, step]
    cases hname : key.name with
    | error fault => simp [foldl_step_none]
    | ok name =>
      cases hfield : shape.field? name with
      | none =>
        cases hother : shape.other name depth doc record with
        | error fault => simp [hfield, hother, foldl_step_none]
        | ok next => simp [hfield, hother, ih]
      | some field =>
        by_cases hgiven : field.name ∈ given
        · simp [hfield, hgiven, foldl_step_none]
        · cases hassign : field.assign depth doc record with
          | error fault => simp [hfield, hgiven, hassign, foldl_step_none]
          | ok next => simp [hfield, hgiven, hassign, ih]

/-- The second member does what the first does, wherever the first is accepted. -/
def Follows (first second : Key × Doc) : Prop :=
  ∀ state next, shape.step depth (some state) first = some next →
    shape.step depth (some state) second = some next

theorem foldl_step_of_follows {members members' : List (Key × Doc)}
    (h : List.Forall₂ (shape.Follows depth) members members') {state next : Finset String × α}
    (hfold : members.foldl (shape.step depth) (some state) = some next) :
    members'.foldl (shape.step depth) (some state) = some next := by
  induction h generalizing state with
  | nil => exact hfold
  | @cons first second _ _ hfollows _ ih =>
    rw [List.foldl_cons] at hfold ⊢
    cases hstep : shape.step depth (some state) first with
    | none =>
      rw [hstep, foldl_step_none] at hfold
      contradiction
    | some between =>
      rw [hfollows state between hstep]
      exact ih (hstep ▸ hfold)

theorem foldl_step_of_neutral {members : List (Key × Doc)} {state : Finset String × α}
    (h : ∀ member ∈ members, shape.step depth (some state) member = some state) :
    members.foldl (shape.step depth) (some state) = some state := by
  induction members with
  | nil => rfl
  | cons member rest ih =>
    obtain ⟨hmember, hrest⟩ := List.forall_mem_cons.mp h
    rw [List.foldl_cons, hmember]
    exact ih hrest

def fieldName? (member : Key × Doc) : Option String :=
  member.1.name.toOption.bind fun name => (shape.field? name).map Field.name

theorem given_of_step {state next : Finset String × α} {member : Key × Doc}
    (h : shape.step depth (some state) member = some next) :
    (shape.fieldName? member = none ∧ next.1 = state.1) ∨
      ∃ name, shape.fieldName? member = some name ∧ name ∉ state.1 ∧
        next.1 = Insert.insert name state.1 := by
  unfold step at h
  unfold fieldName?
  cases hname : member.1.name with
  | error fault => simp [hname] at h
  | ok name =>
    cases hfield : shape.field? name with
    | none =>
      simp only [hname, hfield, toOption_ok, Option.bind_some, Option.map_eq_some_iff] at h
      obtain ⟨record, _, rfl⟩ := h
      exact .inl ⟨by simp [hfield], rfl⟩
    | some field =>
      by_cases hgiven : field.name ∈ state.1
      · simp [hname, hfield, hgiven] at h
      · simp only [hname, hfield, if_neg hgiven, toOption_ok, Option.bind_some,
          Option.map_eq_some_iff] at h
        obtain ⟨record, _, rfl⟩ := h
        exact .inr ⟨field.name, by simp [hfield], hgiven, rfl⟩

/-- No two members of a record that is read set the same field, and each is accepted by itself. -/
theorem distinct_of_foldl {members : List (Key × Doc)} {state next : Finset String × α}
    (h : members.foldl (shape.step depth) (some state) = some next) :
    (members.filterMap shape.fieldName?).Nodup ∧
    (∀ name ∈ members.filterMap shape.fieldName?, name ∉ state.1) ∧
    ∀ member ∈ members, ∃ before after, shape.step depth (some before) member = some after := by
  induction members generalizing state with
  | nil => simp
  | cons member rest ih =>
    rw [List.foldl_cons] at h
    cases hstep : shape.step depth (some state) member with
    | none =>
      rw [hstep, foldl_step_none] at h
      contradiction
    | some between =>
      rw [hstep] at h
      obtain ⟨hnodup, hfresh, haccepted⟩ := ih h
      have hmembers : ∀ m ∈ member :: rest,
          ∃ before after, shape.step depth (some before) m = some after :=
        List.forall_mem_cons.mpr ⟨⟨state, between, hstep⟩, haccepted⟩
      obtain ⟨hnone, hgiven⟩ | ⟨name, hsome, hnew, hgiven⟩ := shape.given_of_step depth hstep
      · rw [List.filterMap_cons_none hnone]
        exact ⟨hnodup, hgiven ▸ hfresh, hmembers⟩
      · rw [List.filterMap_cons_some hsome]
        rw [hgiven] at hfresh
        refine ⟨List.nodup_cons.mpr ⟨fun hmem => ?_, hnodup⟩, ?_, hmembers⟩
        · exact hfresh name hmem (Finset.mem_insert_self _ _)
        · refine List.forall_mem_cons.mpr ⟨hnew, fun other hmem hother => ?_⟩
          exact hfresh other hmem (Finset.mem_insert_of_mem hother)

def IsComplete (given : Finset String) : Prop :=
  ∀ field ∈ shape.fields, field.required → field.name ∈ given

theorem missing?_eq_none_iff {given : List String} :
    shape.missing? given = none ↔ shape.IsComplete given.toFinset := by
  simp [missing?, IsComplete]

theorem foldl_step_of_readMembers {members : List (Key × Doc)} {given : List String} {record : α}
    (h : shape.readMembers depth members [] shape.blank = .ok (given, record)) :
    members.foldl (shape.step depth) (some (∅, shape.blank)) = some (given.toFinset, record) := by
  have hfold := shape.readMembers_eq_foldl depth members [] shape.blank
  rw [h, List.toFinset_nil] at hfold
  exact hfold.symm

theorem readMembers_of_foldl_step {members : List (Key × Doc)} {given : Finset String} {record : α}
    (h : members.foldl (shape.step depth) (some (∅, shape.blank)) = some (given, record)) :
    ∃ names, names.toFinset = given ∧
      shape.readMembers depth members [] shape.blank = .ok (names, record) := by
  have hfold := shape.readMembers_eq_foldl depth members [] shape.blank
  rw [List.toFinset_nil, h, Option.map_eq_some_iff] at hfold
  obtain ⟨⟨names, read⟩, hread, hsame⟩ := hfold
  obtain ⟨rfl, rfl⟩ := Prod.mk.inj hsame
  exact ⟨names, rfl, toOption_eq_some.mp hread⟩

theorem decode_object_eq_ok_iff {start : Nat} {members : List (Key × Doc)} {ending : Ending}
    {record : α} :
    shape.decode depth (.object start members ending) = .ok record ↔
      ∃ inner given, depth.enter start = .ok inner ∧
        members.foldl (shape.step inner) (some (∅, shape.blank)) = some (given, record) ∧
        shape.IsComplete given ∧ ending.isClosed := by
  constructor
  · intro h
    obtain ⟨inner, henter, h⟩ := bind_eq_ok_iff.mp h
    obtain ⟨⟨names, read⟩, hread, h⟩ := bind_eq_ok_iff.mp h
    obtain ⟨after, hafter, h⟩ := bind_eq_ok_iff.mp h
    have hclosed := Ending.ofObject_eq_ok_iff.mp ⟨after, hafter⟩
    cases hmissing : shape.missing? names with
    | some field => simp [hmissing] at h
    | none =>
      rw [hmissing] at h
      obtain rfl := Except.ok.inj h
      exact ⟨inner, names.toFinset, henter, shape.foldl_step_of_readMembers inner hread,
        shape.missing?_eq_none_iff.mp hmissing, hclosed⟩
  · rintro ⟨inner, given, henter, hfold, hcomplete, hclosed⟩
    obtain ⟨names, rfl, hread⟩ := shape.readMembers_of_foldl_step inner hfold
    obtain ⟨after, hafter⟩ := Ending.ofObject_eq_ok_iff.mpr hclosed
    refine bind_eq_ok_iff.mpr ⟨inner, henter, bind_eq_ok_iff.mpr ⟨(names, record), hread, ?_⟩⟩
    refine bind_eq_ok_iff.mpr ⟨after, hafter, ?_⟩
    rw [shape.missing?_eq_none_iff.mpr hcomplete]
    rfl

theorem decode_array_eq_ok_iff {start : Nat} {items : List Doc} {ending : Ending} {record : α} :
    shape.decode depth (.array start items ending) = .ok record ↔
      shape.positional ∧ ∃ inner, depth.enter start = .ok inner ∧
        shape.readItems inner ending 0 shape.fields items shape.blank = .ok record := by
  rw [← bind_eq_ok_iff, decode]
  cases shape.positional <;> simp

end Record

section Order

variable {α β γ : Type}

/-- Two fields of which it does not matter which one is set first. -/
def Field.Commutes (first second : Field α) : Prop :=
  ∀ depth doc other record,
    ((first.assign depth doc record).toOption.bind fun next =>
      (second.assign depth other next).toOption) =
    (second.assign depth other record).toOption.bind fun next =>
      (first.assign depth doc next).toOption

theorem Field.Commutes.symm {first second : Field α} (h : first.Commutes second) :
    second.Commutes first :=
  fun depth doc other record => (h depth other doc record).symm

theorem Field.commutes_named {names names' : List String} {decode : Decoder β}
    {decode' : Decoder γ} {set : β → α → α} {set' : γ → α → α}
    (h : ∀ b c record, set b (set' c record) = set' c (set b record)) :
    (named names decode set).Commutes (named names' decode' set') := by
  intro depth doc other record
  simp only [named, toOption_map]
  cases (decode depth doc).toOption <;> cases (decode' depth other).toOption <;> simp [h]

theorem Field.needed_commutes_iff {names : List String} {decode : Decoder β} {set : β → α → α}
    {field : Field α} :
    (needed names decode set).Commutes field ↔ (named names decode set).Commutes field :=
  .rfl

theorem Field.commutes_needed_iff {names : List String} {decode : Decoder β} {set : β → α → α}
    {field : Field α} :
    field.Commutes (needed names decode set) ↔ field.Commutes (named names decode set) :=
  .rfl

namespace Record

variable {shape : Record α}

def SkipsOthers (shape : Record α) : Prop :=
  ∀ name depth doc record,
    (shape.other name depth doc record).toOption = doc.skip.toOption.map fun _ => record

theorem skipsOthers_of_default (h : shape.other = fun _ _ doc record => do
    doc.skip
    return record) : shape.SkipsOthers := by
  intro name depth doc record
  rw [h, toOption_bind]
  cases doc.skip <;> rfl

theorem step_of_error (depth : Depth) (state : Option (Finset String × α)) {member : Key × Doc}
    {fault : Fault} (h : member.1.name = .error fault) : shape.step depth state member = none := by
  cases state <;> simp [step, h]

theorem step_of_other (hskips : shape.SkipsOthers) (depth : Depth)
    (state : Option (Finset String × α)) {member : Key × Doc} {name : String}
    (hname : member.1.name = .ok name) (hfield : shape.field? name = none) :
    shape.step depth state member =
      state.bind fun given => member.2.skip.toOption.map fun _ => given := by
  cases state with
  | none => rfl
  | some state =>
    simp [step, hname, hfield, hskips name depth member.2 state.2, Function.comp_def]

theorem step_of_field (depth : Depth) (state : Option (Finset String × α)) {member : Key × Doc}
    {name : String} {field : Field α} (hname : member.1.name = .ok name)
    (hfield : shape.field? name = some field) :
    shape.step depth state member =
      state.bind fun (given, record) =>
        if field.name ∈ given then none
        else (field.assign depth member.2 record).toOption.map
          (Insert.insert field.name given, ·) := by
  simp [step, hname, hfield]

theorem step_comm_other (hskips : shape.SkipsOthers) (depth : Depth)
    (state : Option (Finset String × α)) {x : Key × Doc} {name : String}
    (hname : x.1.name = .ok name) (hfield : shape.field? name = none) (y : Key × Doc) :
    shape.step depth (shape.step depth state x) y =
      shape.step depth (shape.step depth state y) x := by
  simp only [step_of_other hskips depth _ hname hfield]
  cases x.2.skip with
  | ok _ => simp
  | error fault => simp [step]

theorem step_step_fields (depth : Depth) (given : Finset String) (record : α) {x y : Key × Doc}
    {name name' : String} {field field' : Field α} (hname : x.1.name = .ok name)
    (hname' : y.1.name = .ok name') (hfield : shape.field? name = some field)
    (hfield' : shape.field? name' = some field') :
    shape.step depth (shape.step depth (some (given, record)) x) y =
      if field.name ∈ given ∨ field'.name ∈ given ∨ field.name = field'.name then none
      else ((field.assign depth x.2 record).toOption.bind fun next =>
        (field'.assign depth y.2 next).toOption).map
          (Insert.insert field'.name (Insert.insert field.name given), ·) := by
  rw [step_of_field depth _ hname hfield, step_of_field depth _ hname' hfield', Option.bind_some]
  by_cases hx : field.name ∈ given
  · simp [hx]
  · cases hassign : (field.assign depth x.2 record).toOption with
    | none => simp [hx, hassign]
    | some next =>
      have hsame : field'.name = field.name ↔ field.name = field'.name := eq_comm
      by_cases hy : field'.name ∈ given ∨ field.name = field'.name
      · have hgiven : field'.name ∈ Insert.insert field.name given := by
          rw [Finset.mem_insert, hsame]
          exact hy.symm
        simp [hx, hassign, hy, hgiven]
      · simp [hx, hassign, hsame, not_or.mp hy]

theorem step_comm_fields (depth : Depth) (state : Option (Finset String × α)) {x y : Key × Doc}
    {name name' : String} {field field' : Field α} (hname : x.1.name = .ok name)
    (hname' : y.1.name = .ok name') (hfield : shape.field? name = some field)
    (hfield' : shape.field? name' = some field')
    (hcommute : field.name ≠ field'.name → field.Commutes field') :
    shape.step depth (shape.step depth state x) y =
      shape.step depth (shape.step depth state y) x := by
  cases state with
  | none => rfl
  | some state =>
    rw [step_step_fields depth _ _ hname hname' hfield hfield',
      step_step_fields depth _ _ hname' hname hfield' hfield]
    by_cases hgiven : field.name ∈ state.1 ∨ field'.name ∈ state.1 ∨ field.name = field'.name
    · rw [if_pos hgiven, if_pos (by tauto)]
    · have hne : field.name ≠ field'.name := fun h => hgiven (.inr (.inr h))
      rw [if_neg hgiven, if_neg (by tauto), hcommute hne depth x.2 y.2 state.2, Finset.insert_comm]

theorem step_comm (hskips : shape.SkipsOthers) (hcommute : shape.fields.Pairwise Field.Commutes)
    (depth : Depth) (state : Option (Finset String × α)) (x y : Key × Doc) :
    shape.step depth (shape.step depth state x) y =
      shape.step depth (shape.step depth state y) x := by
  have herror {x : Key × Doc} (y : Key × Doc) {fault : Fault} (h : x.1.name = .error fault) :
      shape.step depth (shape.step depth state x) y =
        shape.step depth (shape.step depth state y) x := by
    rw [step_of_error depth state h, step_of_error depth _ h]
    rfl
  cases hname : x.1.name with
  | error fault => exact herror y hname
  | ok name =>
    cases hname' : y.1.name with
    | error fault => exact (herror x hname').symm
    | ok name' =>
      cases hfield : shape.field? name with
      | none => exact step_comm_other hskips depth state hname hfield y
      | some field =>
        cases hfield' : shape.field? name' with
        | none => exact (step_comm_other hskips depth state hname' hfield' x).symm
        | some field' =>
          refine step_comm_fields depth state hname hname' hfield hfield' fun hne => ?_
          have hmem := List.mem_of_find?_eq_some hfield
          have hmem' := List.mem_of_find?_eq_some hfield'
          have : Std.Symm (@Field.Commutes α) := ⟨fun _ _ h => h.symm⟩
          exact hcommute.forall hmem hmem' fun heq => hne (heq ▸ rfl)

theorem foldl_step_perm (hskips : shape.SkipsOthers)
    (hcommute : shape.fields.Pairwise Field.Commutes) (depth : Depth)
    {members members' : List (Key × Doc)} (h : members.Perm members')
    (state : Option (Finset String × α)) :
    members.foldl (shape.step depth) state = members'.foldl (shape.step depth) state :=
  h.foldl_eq' (fun x _ y _ state => step_comm hskips hcommute depth state x y) state

end Record

end Order

end FlowScript.Json
