import FlowScript.Proofs.Json.Fields

/-! Documents from which members are left out. A decoder goes on without them, unless a field is
left out that a record needs. -/

namespace FlowScript.Json

inductive MembersReduceTo (R : Doc → Doc → Prop) : List (Key × Doc) → List (Key × Doc) → Prop
  | nil : MembersReduceTo R [] []
  | drop {member : Key × Doc} {rest rest' : List (Key × Doc)}
      (hrest : MembersReduceTo R rest rest') :
    MembersReduceTo R (member :: rest) rest'
  | keep {key key' : Key} {doc doc' : Doc} {rest rest' : List (Key × Doc)}
    (hname : key'.name.toOption = key.name.toOption) (hdoc : R doc doc')
    (hrest : MembersReduceTo R rest rest') :
    MembersReduceTo R ((key, doc) :: rest) ((key', doc') :: rest')

/-- The second document is the first without some members of its objects, in other places. -/
inductive Doc.ReducesTo : Doc → Doc → Prop
  | null {start stop start' stop' : Nat} : ReducesTo (.null start stop) (.null start' stop')
  | bool {b : Bool} {start stop start' stop' : Nat} :
    ReducesTo (.bool start b stop) (.bool start' b stop')
  | number {value value' : Except Fault Number} {start stop start' stop' : Nat}
    (hvalue : value'.toOption = value.toOption) :
    ReducesTo (.number start value stop) (.number start' value' stop')
  | string {value value' : Except Fault String} {start stop start' stop' : Nat}
    (hvalue : value'.toOption = value.toOption) :
    ReducesTo (.string start value stop) (.string start' value' stop')
  | array {start start' : Nat} {items items' : List Doc} {ending ending' : Ending}
    (hitems : List.Forall₂ ReducesTo items items') :
    ReducesTo (.array start items ending) (.array start' items' ending')
  | object {start start' : Nat} {members members' : List (Key × Doc)} {ending ending' : Ending}
    (hmembers : MembersReduceTo ReducesTo members members') :
    ReducesTo (.object start members ending) (.object start' members' ending')

/-- A value is read if the condition holds. If not, one of the named fields is missing. -/
def ReadsIff {α : Type} (names : List String) (condition : Prop) : Except Fault α → Prop
  | .ok _ => condition
  | .error fault => ¬condition ∧ ∃ name ∈ names, fault.problem = .missingField name

section Results

variable {α β : Type} {names : List String} {p q : Prop} {x : Except Fault α}

theorem ReadsIff.congr (h : ReadsIff names p x) (hpq : p ↔ q) : ReadsIff names q x :=
  propext hpq ▸ h

theorem readsIff_ok {a : α} (hx : x = .ok a) (hp : p) : ReadsIff names p x := by
  subst hx
  exact hp

theorem ReadsIff.bind (h : ReadsIff names p x) {f : α → Except Fault β}
    (hf : ∀ a, x = .ok a → ReadsIff names q (f a)) : ReadsIff names (p ∧ q) (x >>= f) := by
  cases x with
  | error fault => exact ⟨fun hpq => h.1 hpq.1, h.2⟩
  | ok a =>
    have hq := hf a rfl
    exact hq.congr ⟨fun hq => ⟨h, hq⟩, fun hpq => hpq.2⟩

theorem ReadsIff.map (h : ReadsIff names p x) (f : α → β) : ReadsIff names p (f <$> x) := by
  cases x with
  | error fault => exact h
  | ok a => exact h

theorem ReadsIff.exists_ok (h : ReadsIff names p x) (hp : p) : ∃ a, x = .ok a := by
  cases x with
  | error fault => exact absurd hp h.1
  | ok a => exact ⟨a, rfl⟩

end Results

/-- What the decoder accepts it accepts without some of the members too, if nothing is left out that
it needs. -/
def Decoder.Survives {α : Type} (names : List String) (needs : Doc → Prop) (decode : Decoder α) :
    Prop :=
  ∀ depth doc doc' a, doc.ReducesTo doc' → doc'.isWhole → decode depth doc = .ok a →
    ReadsIff names (needs doc') (decode depth doc')

section Values

mutual

theorem exists_toJson_of_reducesTo {depth : Depth} {doc' : Doc} {value : Json} :
    (doc : Doc) → doc.ReducesTo doc' → doc'.isWhole → doc.toJson depth = .ok value →
      ∃ value', doc'.toJson depth = .ok value'
  | _, .null, _, _ => ⟨.null, rfl⟩
  | _, .bool, _, _ => ⟨_, rfl⟩
  | .number _ value _, .number hvalue, _, hok => by
    obtain ⟨n, hn, -⟩ := map_eq_ok_iff.mp hok
    rw [hn, toOption_ok, toOption_eq_some] at hvalue
    exact ⟨.number n, by rw [Doc.toJson, hvalue]; rfl⟩
  | .string _ value _, .string hvalue, _, hok => by
    obtain ⟨s, hs, -⟩ := map_eq_ok_iff.mp hok
    rw [hs, toOption_ok, toOption_eq_some] at hvalue
    exact ⟨.string s, by rw [Doc.toJson, hvalue]; rfl⟩
  | .array start items ending, .array hitems, hwhole, hok => by
    obtain ⟨hwhole, hclosed⟩ := Bool.and_eq_true_iff.mp hwhole
    obtain ⟨inner, henter, hok⟩ := bind_eq_ok_iff.mp hok
    obtain ⟨values, hvalues, -⟩ := bind_eq_ok_iff.mp hok
    obtain ⟨values', hvalues'⟩ := exists_itemsToJson_of_reduceTo items hitems hwhole hvalues
    obtain ⟨after, hafter⟩ := Ending.ofArray_eq_ok_iff.mpr hclosed
    refine ⟨.array values', bind_eq_ok_iff.mpr ⟨inner, enter_moved _ henter, ?_⟩⟩
    exact bind_eq_ok_iff.mpr ⟨values', hvalues', bind_eq_ok_iff.mpr ⟨after, hafter, rfl⟩⟩
  | .object start members ending, .object hmembers, hwhole, hok => by
    obtain ⟨hwhole, hclosed⟩ := Bool.and_eq_true_iff.mp hwhole
    obtain ⟨inner, henter, hok⟩ := bind_eq_ok_iff.mp hok
    obtain ⟨values, hvalues, -⟩ := bind_eq_ok_iff.mp hok
    obtain ⟨values', hvalues'⟩ := exists_membersToJson_of_reduceTo members hmembers hwhole hvalues
    obtain ⟨after, hafter⟩ := Ending.ofObject_eq_ok_iff.mpr hclosed
    refine ⟨.object (ofMembers values'), bind_eq_ok_iff.mpr ⟨inner, enter_moved _ henter, ?_⟩⟩
    exact bind_eq_ok_iff.mpr ⟨values', hvalues', bind_eq_ok_iff.mpr ⟨after, hafter, rfl⟩⟩

theorem exists_itemsToJson_of_reduceTo {depth : Depth} {items' : List Doc} {values : List Json} :
    (items : List Doc) → List.Forall₂ Doc.ReducesTo items items' → Doc.itemsAreWhole items' →
      Doc.itemsToJson depth items = .ok values →
      ∃ values', Doc.itemsToJson depth items' = .ok values'
  | _, .nil, _, _ => ⟨[], rfl⟩
  | item :: rest, .cons hitem hrest, hwhole, hok => by
    obtain ⟨hwhole, hwholeRest⟩ := Bool.and_eq_true_iff.mp hwhole
    obtain ⟨value, hvalue, hok⟩ := bind_eq_ok_iff.mp hok
    obtain ⟨values, hvalues, -⟩ := bind_eq_ok_iff.mp hok
    obtain ⟨value', hvalue'⟩ := exists_toJson_of_reducesTo item hitem hwhole hvalue
    obtain ⟨values', hvalues'⟩ := exists_itemsToJson_of_reduceTo rest hrest hwholeRest hvalues
    exact ⟨value' :: values', bind_eq_ok_iff.mpr ⟨value', hvalue',
      bind_eq_ok_iff.mpr ⟨values', hvalues', rfl⟩⟩⟩

theorem exists_membersToJson_of_reduceTo {depth : Depth} {members' : List (Key × Doc)}
    {values : List (String × Json)} :
    (members : List (Key × Doc)) → MembersReduceTo Doc.ReducesTo members members' →
      Doc.membersAreWhole members' → Doc.membersToJson depth members = .ok values →
      ∃ values', Doc.membersToJson depth members' = .ok values'
  | _, .nil, _, _ => ⟨[], rfl⟩
  | _ :: rest, .drop hrest, hwhole, hok => by
    obtain ⟨_, -, hok⟩ := bind_eq_ok_iff.mp hok
    obtain ⟨_, -, hok⟩ := bind_eq_ok_iff.mp hok
    obtain ⟨values, hvalues, -⟩ := bind_eq_ok_iff.mp hok
    exact exists_membersToJson_of_reduceTo rest hrest hwhole hvalues
  | (_, doc) :: rest, .keep hname hdoc hrest, hwhole, hok => by
    obtain ⟨hwhole, hwholeRest⟩ := Bool.and_eq_true_iff.mp hwhole
    obtain ⟨name, hkey, hok⟩ := bind_eq_ok_iff.mp hok
    obtain ⟨value, hvalue, hok⟩ := bind_eq_ok_iff.mp hok
    obtain ⟨values, hvalues, -⟩ := bind_eq_ok_iff.mp hok
    rw [hkey, toOption_ok, toOption_eq_some] at hname
    obtain ⟨value', hvalue'⟩ := exists_toJson_of_reducesTo doc hdoc hwhole hvalue
    obtain ⟨values', hvalues'⟩ := exists_membersToJson_of_reduceTo rest hrest hwholeRest hvalues
    exact ⟨(name, value') :: values', bind_eq_ok_iff.mpr ⟨name, hname, bind_eq_ok_iff.mpr
      ⟨value', hvalue', bind_eq_ok_iff.mpr ⟨values', hvalues', rfl⟩⟩⟩⟩

end

end Values

namespace Decoder

variable {α : Type} {names : List String} {needs : Doc → Prop} {decode : Decoder α}

theorem Survives.congr {needs' : Doc → Prop} (h : decode.Survives names needs)
    (hneeds : ∀ doc, needs doc ↔ needs' doc) : decode.Survives names needs' :=
  fun depth doc doc' a hreduces hwhole hok =>
    (h depth doc doc' a hreduces hwhole hok).congr (hneeds doc')

theorem eq_ok_of_scalar (hplaces : decode.IgnoresPlaces)
    (harray : ∀ depth start items ending a, decode depth (.array start items ending) ≠ .ok a)
    (hobject : ∀ depth start members ending a,
      decode depth (.object start members ending) ≠ .ok a)
    {depth : Depth} {doc doc' : Doc} {a : α} (hreduces : doc.ReducesTo doc')
    (hok : decode depth doc = .ok a) : decode depth doc' = .ok a := by
  have hsame : doc'.bare = doc.bare → decode depth doc' = .ok a := by
    intro hbare
    rw [← toOption_eq_some] at hok ⊢
    rw [← hok, ← hplaces depth doc, ← hplaces depth doc', hbare]
  have hvalue {β : Type} {value value' : Except Fault β} (h : value'.toOption = value.toOption) :
      bareResult value' = bareResult value := by
    cases value <;> cases value' <;> simp_all [bareResult]
  cases hreduces with
  | null => exact hsame rfl
  | bool => exact hsame rfl
  | number h => exact hsame (by rw [Doc.bare, Doc.bare, hvalue h])
  | string h => exact hsame (by rw [Doc.bare, Doc.bare, hvalue h])
  | array => exact absurd hok (harray _ _ _ _ _)
  | object => exact absurd hok (hobject _ _ _ _ _)

theorem string_eq_ok {depth : Depth} {doc doc' : Doc} {s : String} (h : doc.ReducesTo doc')
    (hok : string depth doc = .ok s) : string depth doc' = .ok s :=
  eq_ok_of_scalar ignoresPlaces_string (fun _ _ _ _ _ => nofun) (fun _ _ _ _ _ => nofun) h hok

theorem survives_string : string.Survives names fun _ => True :=
  fun _ _ _ _ hreduces _ hok => readsIff_ok (string_eq_ok hreduces hok) trivial

theorem survives_natural : natural.Survives names fun _ => True :=
  fun _ _ _ _ hreduces _ hok => readsIff_ok (eq_ok_of_scalar ignoresPlaces_natural
    (fun _ _ _ _ _ => nofun) (fun _ _ _ _ _ => nofun) hreduces hok) trivial

theorem survives_float : float.Survives names fun _ => True :=
  fun _ _ _ _ hreduces _ hok => readsIff_ok (eq_ok_of_scalar ignoresPlaces_float
    (fun _ _ _ _ _ => nofun) (fun _ _ _ _ _ => nofun) hreduces hok) trivial

theorem survives_json : json.Survives names fun _ => True := by
  intro depth doc doc' a hreduces hwhole hok
  obtain ⟨value', hvalue'⟩ := exists_toJson_of_reducesTo doc hreduces hwhole hok
  exact readsIff_ok hvalue' trivial

theorem survives_members : members.Survives names fun _ => True := by
  intro depth doc doc' a hreduces hwhole hok
  cases hreduces with
  | object hmembers =>
    obtain ⟨hwhole, hclosed⟩ := Bool.and_eq_true_iff.mp hwhole
    obtain ⟨inner, henter, hok⟩ := bind_eq_ok_iff.mp hok
    obtain ⟨values, hvalues, -⟩ := bind_eq_ok_iff.mp hok
    obtain ⟨values', hvalues'⟩ := exists_membersToJson_of_reduceTo _ hmembers hwhole hvalues
    obtain ⟨after, hafter⟩ := Ending.ofObject_eq_ok_iff.mpr hclosed
    exact readsIff_ok (bind_eq_ok_iff.mpr ⟨inner, enter_moved _ henter, bind_eq_ok_iff.mpr
      ⟨values', hvalues', bind_eq_ok_iff.mpr ⟨after, hafter, rfl⟩⟩⟩) trivial
  | _ => contradiction

theorem Survives.optional (h : decode.Survives names needs)
    (hnull : ∀ start stop, needs (.null start stop)) : decode.optional.Survives names needs := by
  intro depth doc doc' a hreduces hwhole hok
  cases hreduces with
  | null => exact readsIff_ok rfl (hnull _ _)
  | _ =>
    rw [optional_eq rfl] at hok ⊢
    obtain ⟨value, hvalue, -⟩ := map_eq_ok_iff.mp hok
    exact (h depth _ _ value (by constructor <;> assumption) hwhole hvalue).map some

theorem Survives.decodeItems (h : decode.Survives names needs) {depth : Depth}
    {items items' : List Doc} (hitems : List.Forall₂ Doc.ReducesTo items items')
    (hwhole : ∀ item ∈ items', item.isWhole) {values : List α}
    (hok : decodeItems decode depth items = .ok values) :
    ReadsIff names (∀ item ∈ items', needs item) (Decoder.decodeItems decode depth items') := by
  induction hitems generalizing values with
  | nil => exact readsIff_ok rfl (List.forall_mem_nil _)
  | cons hitem _ ih =>
    obtain ⟨hwhole, hwholeRest⟩ := List.forall_mem_cons.mp hwhole
    obtain ⟨value, hvalue, hok⟩ := bind_eq_ok_iff.mp hok
    obtain ⟨values, hvalues, -⟩ := bind_eq_ok_iff.mp hok
    have hfirst := h depth _ _ value hitem hwhole hvalue
    have hrest := ih hwholeRest hvalues
    refine (hfirst.bind fun _ _ => hrest.bind fun _ _ => readsIff_ok rfl trivial).congr ?_
    rw [List.forall_mem_cons, and_true]

theorem Survives.list (h : decode.Survives names needs) :
    decode.list.Survives names fun doc => ∀ item ∈ doc.items, needs item := by
  intro depth doc doc' a hreduces hwhole hok
  cases hreduces with
  | array hitems =>
    obtain ⟨hwhole, hclosed⟩ := Bool.and_eq_true_iff.mp hwhole
    obtain ⟨inner, henter, hok⟩ := bind_eq_ok_iff.mp hok
    obtain ⟨values, hvalues, -⟩ := bind_eq_ok_iff.mp hok
    obtain ⟨after, hafter⟩ := Ending.ofArray_eq_ok_iff.mpr hclosed
    have hread := h.decodeItems hitems (Doc.itemsAreWhole_iff.mp hwhole) hvalues
    rw [Decoder.list, enter_moved _ henter]
    refine (hread.bind fun values _ => readsIff_ok (a := values) ?_ trivial).congr
      (iff_of_eq (and_true _))
    exact bind_eq_ok_iff.mpr ⟨after, hafter, rfl⟩
  | _ => contradiction

theorem Survives.optional_all (h : decode.Survives names fun _ => True) :
    decode.optional.Survives names fun _ => True :=
  h.optional fun _ _ => trivial

theorem Survives.list_all (h : decode.Survives names fun _ => True) :
    decode.list.Survives names fun _ => True :=
  h.list.congr fun _ => ⟨fun _ => trivial, fun _ _ _ => trivial⟩

end Decoder

section Records

variable {α β : Type} {names : List String}

def Field.Survives (names : List String) (needs : Doc → Prop) (field : Field α) : Prop :=
  ∀ depth doc doc' record next, doc.ReducesTo doc' → doc'.isWhole →
    field.assign depth doc record = .ok next →
    ∀ record', ReadsIff names (needs doc') (field.assign depth doc' record')

theorem Decoder.Survives.named {needs : Doc → Prop} {decode : Decoder β}
    (h : decode.Survives names needs) (fieldNames : List String) (set : β → α → α) :
    (Field.named fieldNames decode set).Survives names needs := by
  intro depth doc doc' record next hreduces hwhole hok record'
  obtain ⟨value, hvalue, -⟩ := map_eq_ok_iff.mp hok
  exact (h depth doc doc' value hreduces hwhole hvalue).map (set · record')

theorem Decoder.Survives.needed {needs : Doc → Prop} {decode : Decoder β}
    (h : decode.Survives names needs) (fieldNames : List String) (set : β → α → α) :
    (Field.needed fieldNames decode set).Survives names needs :=
  h.named fieldNames set

namespace Record

variable (shape : Record α)

def OthersSurvive : Prop :=
  ∀ name depth doc doc' record next, doc.ReducesTo doc' → doc'.isWhole →
    shape.other name depth doc record = .ok next →
    ∀ record', ∃ next', shape.other name depth doc' record' = .ok next'

/-- The document gives what the record needs: all required fields, and in each field what is needed
there. -/
def Suffices (needs : String → Doc → Prop) (doc : Doc) : Prop :=
  ∀ index field, shape.fields[index]? = some field →
    (field.required → doc.givenAs field.names index ≠ []) ∧
      ∀ given ∈ doc.givenAs field.names index, needs field.name given

variable {shape}

theorem othersSurvive_of_default (h : shape.other = fun _ _ doc record => do
    doc.skip
    return record) : shape.OthersSurvive := by
  intro name depth doc doc' record next _ hwhole _ record'
  rw [h]
  exact ⟨record', bind_eq_ok_iff.mpr ⟨(), Doc.skip_of_isWhole doc' hwhole, rfl⟩⟩

def target? (shape : Record α) (member : Key × Doc) : Option (Field α) :=
  member.1.name.toOption.bind shape.field?

theorem fieldName?_eq_map_target? (member : Key × Doc) :
    shape.fieldName? member = (shape.target? member).map Field.name := by
  rw [fieldName?, target?, Option.map_bind]
  rfl

def MembersSuffice (shape : Record α) (needs : String → Doc → Prop)
    (members : List (Key × Doc)) : Prop :=
  ∀ member ∈ members, ∀ field, shape.target? member = some field → needs field.name member.2

theorem membersSuffice_cons {needs : String → Doc → Prop} {member : Key × Doc}
    {rest : List (Key × Doc)} :
    shape.MembersSuffice needs (member :: rest) ↔
      (∀ field, shape.target? member = some field → needs field.name member.2) ∧
        shape.MembersSuffice needs rest :=
  List.forall_mem_cons

variable {needs : String → Doc → Prop}

section Steps

variable {depth : Depth} {key : Key} {doc : Doc} {rest : List (Key × Doc)} {given : List String}
  {record : α} {name : String}

theorem readMembers_cons_other (hname : key.name = .ok name) (hfield : shape.field? name = none) :
    shape.readMembers depth ((key, doc) :: rest) given record =
      shape.other name depth doc record >>= shape.readMembers depth rest given := by
  have hbind : ∀ f : String → Except Fault (List String × α), Except.ok name >>= f = f name :=
    fun _ => rfl
  rw [readMembers, hname, hbind, hfield]

theorem readMembers_cons_field (hname : key.name = .ok name) {field : Field α}
    (hfield : shape.field? name = some field) (hnew : field.name ∉ given) :
    shape.readMembers depth ((key, doc) :: rest) given record =
      field.assign depth doc record >>= shape.readMembers depth rest (field.name :: given) := by
  have hbind : ∀ f : String → Except Fault (List String × α), Except.ok name >>= f = f name :=
    fun _ => rfl
  rw [readMembers, hname, hbind, hfield]
  simp [hnew]

/-- What a member does that is read: it is passed to the field of its name, which was not given
before, or else to the other members. -/
theorem readMembers_cons_eq_ok {read : List String × α}
    (hok : shape.readMembers depth ((key, doc) :: rest) given record = .ok read) :
    ∃ name, key.name = .ok name ∧
      ((shape.field? name = none ∧ ∃ next, shape.other name depth doc record = .ok next ∧
          shape.readMembers depth rest given next = .ok read) ∨
        ∃ field, shape.field? name = some field ∧ field.name ∉ given ∧
          ∃ next, field.assign depth doc record = .ok next ∧
            shape.readMembers depth rest (field.name :: given) next = .ok read) := by
  obtain ⟨name, hname, -⟩ := bind_eq_ok_iff.mp hok
  refine ⟨name, hname, ?_⟩
  cases hfield : shape.field? name with
  | none =>
    rw [readMembers_cons_other hname hfield] at hok
    exact .inl ⟨rfl, bind_eq_ok_iff.mp hok⟩
  | some field =>
    by_cases hnew : field.name ∈ given
    · rw [readMembers, hname] at hok
      simp [bind, Except.bind, hfield, hnew] at hok
    · rw [readMembers_cons_field hname hfield hnew] at hok
      exact .inr ⟨field, rfl, hnew, bind_eq_ok_iff.mp hok⟩

end Steps

theorem readsIff_readMembers
    (hfields : ∀ field ∈ shape.fields, field.Survives names (needs field.name))
    (hothers : shape.OthersSurvive) {depth : Depth} {members members' : List (Key × Doc)}
    (hmembers : MembersReduceTo Doc.ReducesTo members members')
    (hwhole : ∀ member ∈ members', member.2.isWhole) {given given' : List String}
    (hgiven : given' ⊆ given) {record : α} {read : List String × α}
    (hok : shape.readMembers depth members given record = .ok read) (record' : α) :
    ReadsIff names (shape.MembersSuffice needs members')
      (shape.readMembers depth members' given' record') := by
  induction hmembers generalizing given given' record record' with
  | nil => exact readsIff_ok rfl (List.forall_mem_nil _)
  | drop _ ih =>
    obtain ⟨_, -, ⟨-, next, -, hok⟩ | ⟨field, -, -, next, -, hok⟩⟩ := readMembers_cons_eq_ok hok
    · exact ih hwhole hgiven hok record'
    · exact ih hwhole (List.subset_cons_of_subset _ hgiven) hok record'
  | @keep key key' doc doc' rest rest' hname hdoc _ ih =>
    obtain ⟨hwhole, hwholeRest⟩ := List.forall_mem_cons.mp hwhole
    obtain ⟨name, hkey, hmember⟩ := readMembers_cons_eq_ok hok
    rw [hkey, toOption_ok, toOption_eq_some] at hname
    obtain ⟨hfield, next, hnext, hok⟩ | ⟨field, hfield, hnew, next, hnext, hok⟩ := hmember
    · obtain ⟨next', hnext'⟩ := hothers _ _ _ _ _ _ hdoc hwhole hnext record'
      have hbind : shape.readMembers depth ((key', doc') :: rest') given' record' =
          shape.readMembers depth rest' given' next' := by
        rw [readMembers_cons_other hname hfield, hnext']
        rfl
      rw [hbind]
      refine (ih hwholeRest hgiven hok next').congr ?_
      simp [membersSuffice_cons, target?, hname, hfield]
    · have hnew' : field.name ∉ given' := fun hmem => hnew (hgiven hmem)
      have hsurvives := hfields field (List.mem_of_find?_eq_some hfield)
      have hassign := hsurvives _ _ _ _ _ hdoc hwhole hnext record'
      rw [readMembers_cons_field hname hfield hnew']
      refine (hassign.bind fun next' _ =>
        ih hwholeRest (List.cons_subset_cons _ hgiven) hok next').congr ?_
      simp [membersSuffice_cons, target?, hname, hfield]

theorem mem_of_readMembers {depth : Depth} {members : List (Key × Doc)} {given given' : List String}
    {record record' : α}
    (hok : shape.readMembers depth members given record = .ok (given', record')) (name : String) :
    name ∈ given' ↔ name ∈ given ∨ ∃ member ∈ members, shape.fieldName? member = some name := by
  induction members generalizing given record with
  | nil =>
    obtain ⟨rfl, -⟩ := Prod.mk.inj (Except.ok.inj hok)
    simp
  | cons member rest ih =>
    obtain ⟨key, doc⟩ := member
    obtain ⟨_, hkey, ⟨hfield, _, -, hok⟩ | ⟨field, hfield, -, _, -, hok⟩⟩ :=
      readMembers_cons_eq_ok hok
    · simp [ih hok, fieldName?, hkey, hfield]
    · simp [ih hok, fieldName?, hkey, hfield, eq_comm, or_assoc, or_left_comm]

structure IsReducible (shape : Record α) (names : List String) (needs : String → Doc → Prop) :
    Prop where
  fields : ∀ field ∈ shape.fields, field.Survives names (needs field.name)
  others : shape.OthersSurvive
  required : ∀ field ∈ shape.fields, field.required → field.name ∈ names
  named : ∀ field ∈ shape.fields, field.name ∈ field.names
  distinct : (shape.fields.flatMap Field.names).Nodup

namespace IsReducible

variable (h : shape.IsReducible names needs)
include h

theorem target?_eq_some_iff {member : Key × Doc} {field : Field α} :
    shape.target? member = some field ↔ field ∈ shape.fields ∧ member.1.isAmong field.names := by
  rw [target?, Option.bind_eq_some_iff, Key.isAmong_iff]
  constructor
  · rintro ⟨name, hname, hfield⟩
    have hfound : name ∈ field.names := by simpa using List.find?_some hfield
    exact ⟨List.mem_of_find?_eq_some hfield, name, hfound, toOption_eq_some.mp hname⟩
  · rintro ⟨hmem, name, hname, hkey⟩
    exact ⟨name, toOption_eq_some.mpr hkey, field?_eq_some h.distinct hmem hname⟩

theorem fieldName?_eq_some_iff {field : Field α} (hfield : field ∈ shape.fields)
    {member : Key × Doc} :
    shape.fieldName? member = some field.name ↔ member.1.isAmong field.names := by
  rw [fieldName?_eq_map_target?, Option.map_eq_some_iff]
  constructor
  · rintro ⟨target, htarget, hname⟩
    obtain ⟨hmem, hamong⟩ := h.target?_eq_some_iff.mp htarget
    have hfound := field?_eq_some h.distinct hmem (h.named target hmem)
    rw [hname, field?_eq_some h.distinct hfield (h.named field hfield)] at hfound
    rwa [Option.some.inj hfound]
  · exact fun hamong => ⟨field, h.target?_eq_some_iff.mpr ⟨hfield, hamong⟩, rfl⟩

theorem membersSuffice_of_suffices {start : Nat} {members : List (Key × Doc)} {ending : Ending}
    (hsuffices : shape.Suffices needs (.object start members ending)) :
    shape.MembersSuffice needs members := by
  intro member hmember field htarget
  obtain ⟨hmem, hamong⟩ := h.target?_eq_some_iff.mp htarget
  obtain ⟨index, hget⟩ := List.mem_iff_getElem?.mp hmem
  exact (hsuffices index field hget).2 member.2 (Doc.mem_givenIn.mpr ⟨member.1, hmember, hamong⟩)

theorem suffices_object_iff (start : Nat) {members : List (Key × Doc)} (ending : Ending)
    {given : List String}
    (hgiven : ∀ name, name ∈ given ↔ ∃ member ∈ members, shape.fieldName? member = some name) :
    shape.Suffices needs (.object start members ending) ↔
      shape.MembersSuffice needs members ∧ shape.IsComplete given.toFinset := by
  have hfield {index : Nat} {field : Field α} (hget : shape.fields[index]? = some field) :
      field ∈ shape.fields := List.mem_of_getElem? hget
  constructor
  · intro hsuffices
    refine ⟨h.membersSuffice_of_suffices hsuffices, fun field hmem hrequired => ?_⟩
    obtain ⟨index, hget⟩ := List.mem_iff_getElem?.mp hmem
    obtain ⟨doc, hdoc⟩ := List.exists_mem_of_ne_nil _ ((hsuffices index field hget).1 hrequired)
    obtain ⟨key, hmember, hamong⟩ := Doc.mem_givenIn.mp hdoc
    exact List.mem_toFinset.mpr ((hgiven _).mpr
      ⟨(key, doc), hmember, (h.fieldName?_eq_some_iff hmem).mpr hamong⟩)
  · rintro ⟨hmembers, hcomplete⟩ index field hget
    refine ⟨fun hrequired => ?_, fun doc hdoc => ?_⟩
    · have hname := List.mem_toFinset.mp (hcomplete field (hfield hget) hrequired)
      obtain ⟨member, hmember, hname⟩ := (hgiven _).mp hname
      have hamong := (h.fieldName?_eq_some_iff (hfield hget)).mp hname
      exact List.ne_nil_of_mem (Doc.mem_givenIn.mpr ⟨member.1, hmember, hamong⟩)
    · obtain ⟨key, hmember, hamong⟩ := Doc.mem_givenIn.mp hdoc
      exact hmembers (key, doc) hmember field (h.target?_eq_some_iff.mpr ⟨hfield hget, hamong⟩)

theorem readsIff_object {depth inner : Depth} {start : Nat} {members members' : List (Key × Doc)}
    {ending : Ending} (henter : depth.enter start = .ok inner) (hclosed : ending.isClosed)
    (hmembers : MembersReduceTo Doc.ReducesTo members members')
    (hwhole : ∀ member ∈ members', member.2.isWhole) {read : List String × α}
    (hok : shape.readMembers inner members [] shape.blank = .ok read) :
    ReadsIff names (shape.Suffices needs (.object start members' ending))
      (shape.decode depth (.object start members' ending)) := by
  have hread := readsIff_readMembers h.fields h.others hmembers hwhole (List.Subset.refl []) hok
    shape.blank
  obtain ⟨after, hafter⟩ := Ending.ofObject_eq_ok_iff.mpr hclosed
  rw [decode, henter]
  show ReadsIff names _ (shape.readMembers inner members' [] shape.blank >>= _)
  cases hresult : shape.readMembers inner members' [] shape.blank with
  | error fault =>
    rw [hresult] at hread
    exact ⟨fun hsuffices => hread.1 (h.membersSuffice_of_suffices hsuffices), hread.2⟩
  | ok result =>
    obtain ⟨given, record⟩ := result
    rw [hresult] at hread
    have hgiven (name : String) :
        name ∈ given ↔ ∃ member ∈ members', shape.fieldName? member = some name := by
      simpa using mem_of_readMembers hresult name
    have hsuffices := h.suffices_object_iff start ending hgiven
    dsimp only [bind, Except.bind]
    rw [hafter]
    cases hmissing : shape.missing? given with
    | none => exact hsuffices.mpr ⟨hread, shape.missing?_eq_none_iff.mp hmissing⟩
    | some field =>
      have hmem : field ∈ shape.fields := List.mem_of_find?_eq_some hmissing
      have hrequired : field.required := by
        have hfound := List.find?_some hmissing
        exact (Bool.and_eq_true_iff.mp hfound).1
      refine ⟨fun hall => ?_, field.name, h.required field hmem hrequired, rfl⟩
      rw [shape.missing?_eq_none_iff.mpr (hsuffices.mp hall).2] at hmissing
      contradiction

theorem readsIff_readItems {targets : List (Field α)}
    (htargets : ∀ target ∈ targets, target ∈ shape.fields) {depth : Depth} {items items' : List Doc}
    (hitems : List.Forall₂ Doc.ReducesTo items items') (hwhole : ∀ item ∈ items', item.isWhole)
    {ending ending' : Ending} (hclosed : ending'.isClosed) {place : Nat} {record result : α}
    (hok : shape.readItems depth ending place targets items record = .ok result) (record' : α) :
    ReadsIff names (∀ (index : Nat) (field : Field α), targets[index]? = some field →
        (field.required → items'[index]?.toList ≠ []) ∧
          ∀ given ∈ items'[index]?.toList, needs field.name given)
      (shape.readItems depth ending' place targets items' record') := by
  induction targets generalizing items items' place record record' with
  | nil =>
    cases hitems with
    | nil => exact readsIff_ok (readItems_nil_eq_ok_iff.mpr ⟨hclosed, rfl, by simp⟩) (by simp)
    | cons => contradiction
  | cons target targets ih =>
    obtain ⟨htarget, htargets⟩ := List.forall_mem_cons.mp htargets
    cases hitems with
    | nil =>
      obtain ⟨-, -, hrequired⟩ := readItems_nil_eq_ok_iff.mp hok
      refine readsIff_ok (readItems_nil_eq_ok_iff.mpr ⟨hclosed, rfl, hrequired⟩) ?_
      intro index field hfield
      simp [hrequired field (List.mem_of_getElem? hfield)]
    | cons hitem hrest =>
      obtain ⟨hwhole, hwholeRest⟩ := List.forall_mem_cons.mp hwhole
      obtain ⟨next, hnext, hok⟩ := bind_eq_ok_iff.mp hok
      have hassign := h.fields target htarget _ _ _ _ _ hitem hwhole hnext record'
      refine (hassign.bind fun next' _ =>
        ih htargets hrest hwholeRest hok next').congr ⟨?_, fun hall => ⟨?_, ?_⟩⟩
      · rintro ⟨hfirst, hothers⟩ index field hfield
        cases index with
        | zero =>
          obtain rfl : target = field := Option.some.inj hfield
          simpa using hfirst
        | succ index => exact hothers index field hfield
      · simpa using (hall 0 target rfl).2
      · exact fun index field hfield => hall (index + 1) field hfield

theorem survives : shape.decode.Survives names (shape.Suffices needs) := by
  intro depth doc doc' record hreduces hwhole hok
  cases hreduces with
  | object hmembers =>
    obtain ⟨hwhole, hclosed⟩ := Bool.and_eq_true_iff.mp hwhole
    obtain ⟨inner, henter, hok⟩ := bind_eq_ok_iff.mp hok
    obtain ⟨read, hread, -⟩ := bind_eq_ok_iff.mp hok
    exact h.readsIff_object (enter_moved _ henter) hclosed hmembers
      (Doc.membersAreWhole_iff.mp hwhole) hread
  | @array _ start' _ items' _ ending' hitems =>
    obtain ⟨hwhole, hclosed⟩ := Bool.and_eq_true_iff.mp hwhole
    obtain ⟨hpositional, inner, henter, hok⟩ := (shape.decode_array_eq_ok_iff depth).mp hok
    have hdecode : shape.decode depth (.array start' items' ending') =
        shape.readItems inner ending' 0 shape.fields items' shape.blank := by
      rw [decode, if_pos hpositional, enter_moved start' henter]
      rfl
    rw [hdecode]
    exact h.readsIff_readItems (fun _ hmem => hmem) hitems (Doc.itemsAreWhole_iff.mp hwhole)
      hclosed hok shape.blank
  | _ => contradiction

end IsReducible

theorem getElem?_ne_none_of_readItems {depth : Depth} {ending : Ending} {targets : List (Field α)}
    {index : Nat} {field : Field α} (hfield : targets[index]? = some field)
    (hrequired : field.required) {place : Nat} {items : List Doc} {record result : α}
    (hok : shape.readItems depth ending place targets items record = .ok result) :
    items[index]? ≠ none := by
  induction targets generalizing index place items record with
  | nil => simp at hfield
  | cons target targets ih =>
    cases items with
    | nil =>
      have hnone := (readItems_nil_eq_ok_iff.mp hok).2.2 field (List.mem_of_getElem? hfield)
      rw [hnone] at hrequired
      contradiction
    | cons item rest =>
      obtain ⟨next, -, hok⟩ := bind_eq_ok_iff.mp hok
      cases index with
      | zero => simp
      | succ index => exact ih hfield hok

theorem IsReducible.suffices_of_decode (h : shape.IsReducible names fun _ _ => True)
    {depth : Depth} {doc : Doc} {record : α} (hok : shape.decode depth doc = .ok record) :
    shape.Suffices (fun _ _ => True) doc := by
  match doc with
  | .object start members ending =>
    obtain ⟨inner, -, hok⟩ := bind_eq_ok_iff.mp hok
    obtain ⟨⟨given, read⟩, hread, hok⟩ := bind_eq_ok_iff.mp hok
    obtain ⟨after, -, hok⟩ := bind_eq_ok_iff.mp hok
    have hgiven (name : String) :
        name ∈ given ↔ ∃ member ∈ members, shape.fieldName? member = some name := by
      simpa using mem_of_readMembers hread name
    refine (h.suffices_object_iff start ending hgiven).mpr ⟨fun _ _ _ _ => trivial, ?_⟩
    cases hmissing : shape.missing? given with
    | none => exact shape.missing?_eq_none_iff.mp hmissing
    | some field => simp [hmissing] at hok
  | .array start items ending =>
    obtain ⟨-, inner, -, hok⟩ := (shape.decode_array_eq_ok_iff depth).mp hok
    refine fun index field hfield => ⟨fun hrequired => ?_, fun _ _ => trivial⟩
    simpa [Doc.givenAs] using getElem?_ne_none_of_readItems hfield hrequired hok
  | .null .. | .bool .. | .number .. | .string .. | .broken .. => contradiction

theorem suffices_iff {doc : Doc} :
    shape.Suffices needs doc ↔ ∀ entry ∈ shape.fields.zipIdx,
      (entry.1.required → doc.givenAs entry.1.names entry.2 ≠ []) ∧
        ∀ given ∈ doc.givenAs entry.1.names entry.2, needs entry.1.name given := by
  simp only [Suffices, Prod.forall, List.mem_zipIdx_iff_getElem?]
  exact forall_comm

theorem IsPlain.survives (hplain : shape.IsPlain)
    (hrequired : ∀ field ∈ shape.fields, field.required = false)
    (hnamed : ∀ field ∈ shape.fields, field.name ∈ field.names)
    (hfields : shape.fields.Forall fun field => field.Survives names fun _ => True) :
    shape.decode.Survives names fun _ => True := by
  have hreducible : shape.IsReducible names fun _ _ => True :=
    { fields := List.forall_iff_forall_mem.mp hfields
      others := othersSurvive_of_default hplain.other
      required := fun field hmem h => by simp [hrequired field hmem] at h
      named := hnamed
      distinct := hplain.distinct }
  refine hreducible.survives.congr fun doc => ⟨fun _ => trivial, fun _ index field hget => ?_⟩
  simp [hrequired field (List.mem_of_getElem? hget)]

end Record

end Records

end FlowScript.Json
