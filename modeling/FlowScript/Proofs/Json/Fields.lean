import FlowScript.Proofs.Json.Fits

/-! What a record holds in one of its fields: what the decoder of the field makes of the document
that sets it, or what the blank record holds if there is none. -/

namespace FlowScript.Json

def Key.isAmong (names : List String) (key : Key) : Bool :=
  key.name.toOption.any names.contains

theorem Key.isAmong_iff {names : List String} {key : Key} :
    key.isAmong names ↔ ∃ name ∈ names, key.name = .ok name := by
  simp [isAmong, Option.any_eq_true, toOption_eq_some, and_comm]

theorem Key.filter_isAmong_of_nodup {members : List (Key × Doc)}
    (h : (members.map (·.1.name)).Nodup) (name : String) :
    members.filter (·.1.isAmong [name]) = [] ∨
      ∃ member, member.1.name = .ok name ∧ members.filter (·.1.isAmong [name]) = [member] := by
  have hnames : ∀ member ∈ members.filter (·.1.isAmong [name]), member.1.name = .ok name := by
    intro member hmember
    simpa using Key.isAmong_iff.mp (List.mem_filter.mp hmember).2
  have hnodup : ((members.filter (·.1.isAmong [name])).map (·.1.name)).Nodup :=
    h.sublist (List.filter_sublist.map _)
  match hfound : members.filter (·.1.isAmong [name]) with
  | [] => exact .inl hfound
  | [member] =>
    rw [hfound] at hnames
    exact .inr ⟨member, hnames member List.mem_cons_self, hfound⟩
  | first :: second :: rest =>
    rw [hfound] at hnames hnodup
    simp [hnames first, hnames second] at hnodup

namespace Doc

def items : Doc → List Doc
  | .array _ items _ => items
  | _ => []

def givenIn (names : List String) (members : List (Key × Doc)) : List Doc :=
  (members.filter (·.1.isAmong names)).map Prod.snd

def givenAs (names : List String) (index : Nat) : Doc → List Doc
  | .object _ members _ => givenIn names members
  | .array _ items _ => items[index]?.toList
  | _ => []

theorem mem_givenIn {names : List String} {members : List (Key × Doc)} {doc : Doc} :
    doc ∈ givenIn names members ↔ ∃ key, (key, doc) ∈ members ∧ key.isAmong names := by
  simp [givenIn]

end Doc

theorem enter_eq_sub_one {depth inner : Depth} {start : Nat} (h : depth.enter start = .ok inner) :
    inner = depth - 1 := by
  unfold Depth.enter at h
  split at h
  · contradiction
  · exact (Except.ok.inj h).symm

section Getters

variable {α β : Type}

/-- The field sets what is looked at to what the decoder makes of the document. -/
def Field.Gives (field : Field α) (decode : Decoder β) (get : α → β) : Prop :=
  ∀ depth doc record next, field.assign depth doc record = .ok next →
    decode depth doc = .ok (get next)

def Field.Leaves (field : Field α) (get : α → β) : Prop :=
  ∀ depth doc record next, field.assign depth doc record = .ok next → get next = get record

variable {γ : Type} {names : List String} {decode : Decoder β} {get : α → β}

theorem Field.gives_named {set : β → α → α} (h : ∀ b record, get (set b record) = b) :
    (named names decode set).Gives decode get := by
  intro depth doc record next hok
  obtain ⟨value, hvalue, rfl⟩ := map_eq_ok_iff.mp hok
  rw [hvalue, h]

theorem Field.gives_needed {set : β → α → α} (h : ∀ b record, get (set b record) = b) :
    (needed names decode set).Gives decode get :=
  show (named names decode set).Gives decode get from gives_named h

theorem Field.leaves_named {decode : Decoder γ} {set : γ → α → α}
    (h : ∀ c record, get (set c record) = get record) :
    (named names decode set).Leaves get := by
  intro depth doc record next hok
  obtain ⟨value, -, rfl⟩ := map_eq_ok_iff.mp hok
  exact h value record

theorem Field.leaves_needed {decode : Decoder γ} {set : γ → α → α}
    (h : ∀ c record, get (set c record) = get record) :
    (needed names decode set).Leaves get :=
  show (named names decode set).Leaves get from leaves_named h

namespace Record

variable {shape : Record α}

/-- The members of other names leave what is looked at. -/
def OthersLeave (shape : Record α) (get : α → β) : Prop :=
  ∀ name depth doc record next, shape.other name depth doc record = .ok next →
    get next = get record

theorem othersLeave_of_default (h : shape.other = fun _ _ doc record => do
    doc.skip
    return record) (get : α → β) : shape.OthersLeave get := by
  intro name depth doc record next hok
  rw [h] at hok
  obtain ⟨_, -, hok⟩ := bind_eq_ok_iff.mp hok
  rw [Except.ok.inj hok]

/-- The record passes over members of other names, and no two of its fields share a name. -/
structure IsPlain (shape : Record α) : Prop where
  other : shape.other = fun _ _ doc record => do
    doc.skip
    return record
  distinct : (shape.fields.flatMap Field.names).Nodup

/-- One field of the record, with the given names and at the given index, sets what is looked at.
All others leave it. -/
structure Sets (shape : Record α) (index : Nat) (names : List String) (decode : Decoder β)
    (get : α → β) : Prop where
  field : ∃ field, shape.fields[index]? = some field ∧ field.names = names ∧ field.Gives decode get
  fields : ∀ other ∈ shape.fields.eraseIdx index, other.Leaves get
  others : shape.OthersLeave get
  distinct : (shape.fields.flatMap Field.names).Nodup

theorem IsPlain.sets_named (h : shape.IsPlain) (index : Nat) (get : α → β) {set : β → α → α}
    (hfield : shape.fields[index]? = some (.named names decode set))
    (hset : ∀ b record, get (set b record) = b)
    (hfields : ∀ other ∈ shape.fields.eraseIdx index, other.Leaves get) :
    shape.Sets index names decode get :=
  ⟨⟨_, hfield, rfl, Field.gives_named hset⟩, hfields, othersLeave_of_default h.other get,
    h.distinct⟩

theorem IsPlain.sets_needed (h : shape.IsPlain) (index : Nat) (get : α → β) {set : β → α → α}
    (hfield : shape.fields[index]? = some (.needed names decode set))
    (hset : ∀ b record, get (set b record) = b)
    (hfields : ∀ other ∈ shape.fields.eraseIdx index, other.Leaves get) :
    shape.Sets index names decode get :=
  ⟨⟨_, hfield, rfl, Field.gives_needed hset⟩, hfields, othersLeave_of_default h.other get,
    h.distinct⟩

namespace Sets

variable {index : Nat} (h : shape.Sets index names decode get)
include h

theorem leaves_of_isAmong_eq_false {key : Key} (hkey : key.isAmong names = false) {name : String}
    (hname : key.name = .ok name) {field : Field α} (hfield : shape.field? name = some field) :
    field.Leaves get := by
  obtain ⟨target, htarget, rfl, -⟩ := h.field
  have hmem : field ∈ shape.fields := List.mem_of_find?_eq_some hfield
  have hnames : name ∈ field.names := by simpa using List.find?_some hfield
  obtain ⟨i, hi⟩ := List.mem_iff_getElem?.mp hmem
  refine h.fields field (List.mem_eraseIdx_iff_getElem?.mpr ⟨i, ?_, hi⟩)
  rintro rfl
  obtain rfl : target = field := Option.some.inj (htarget.symm.trans hi)
  have hamong : key.isAmong target.names := Key.isAmong_iff.mpr ⟨name, hnames, hname⟩
  rw [hkey] at hamong
  contradiction

theorem exists_field? : ∃ field, field.Gives decode get ∧ ∀ key : Key, key.isAmong names →
    ∃ name, key.name = .ok name ∧ shape.field? name = some field := by
  obtain ⟨field, hfield, rfl, hgives⟩ := h.field
  refine ⟨field, hgives, fun key hkey => ?_⟩
  obtain ⟨name, hname, hkey⟩ := Key.isAmong_iff.mp hkey
  exact ⟨name, hkey, field?_eq_some h.distinct (List.mem_of_getElem? hfield) hname⟩

section Members

variable {depth : Depth}

theorem get_of_step {state next : Finset String × α} {member : Key × Doc}
    (hmember : member.1.isAmong names = false)
    (hstep : shape.step depth (some state) member = some next) : get next.2 = get state.2 := by
  unfold Record.step at hstep
  rw [Option.bind_some, Option.bind_eq_some_iff] at hstep
  obtain ⟨name, hname, hstep⟩ := hstep
  rw [toOption_eq_some] at hname
  split at hstep
  · obtain ⟨record, hrecord, rfl⟩ := Option.map_eq_some_iff.mp hstep
    exact h.others _ _ _ _ _ (toOption_eq_some.mp hrecord)
  · next field hfield =>
    split at hstep
    · contradiction
    · obtain ⟨record, hrecord, rfl⟩ := Option.map_eq_some_iff.mp hstep
      exact h.leaves_of_isAmong_eq_false hmember hname hfield _ _ _ _ (toOption_eq_some.mp hrecord)

theorem get_of_foldl {members : List (Key × Doc)}
    (hmembers : ∀ member ∈ members, member.1.isAmong names = false)
    {state next : Finset String × α}
    (hfold : members.foldl (shape.step depth) (some state) = some next) :
    get next.2 = get state.2 := by
  induction members generalizing state with
  | nil => rw [Option.some.inj hfold]
  | cons member rest ih =>
    obtain ⟨hmember, hrest⟩ := List.forall_mem_cons.mp hmembers
    rw [List.foldl_cons] at hfold
    cases hstep : shape.step depth (some state) member with
    | none => simp [hstep, foldl_step_none] at hfold
    | some between =>
      rw [hstep] at hfold
      rw [ih hrest hfold, h.get_of_step hmember hstep]

theorem get_of_mem_givenIn {members : List (Key × Doc)} {state next : Finset String × α}
    (hfold : members.foldl (shape.step depth) (some state) = some next) {doc : Doc}
    (hdoc : doc ∈ Doc.givenIn names members) : decode depth doc = .ok (get next.2) := by
  obtain ⟨key, hmem, hkey⟩ := Doc.mem_givenIn.mp hdoc
  obtain ⟨before, after, rfl⟩ := List.append_of_mem hmem
  obtain ⟨field, hgives, hfield?⟩ := h.exists_field?
  obtain ⟨name, hname, hfield⟩ := hfield? key hkey
  rw [List.foldl_append, List.foldl_cons] at hfold
  cases hbefore : before.foldl (shape.step depth) (some state) with
  | none => simp [hbefore, step, foldl_step_none] at hfold
  | some between =>
    rw [hbefore] at hfold
    cases hstep : shape.step depth (some between) (key, doc) with
    | none => simp [hstep, foldl_step_none] at hfold
    | some set =>
      rw [hstep] at hfold
      rw [step_of_field depth _ hname hfield, Option.bind_some] at hstep
      dsimp only at hstep
      split at hstep
      · contradiction
      · obtain ⟨record, hrecord, rfl⟩ := Option.map_eq_some_iff.mp hstep
        -- No member behind it sets the field again, so they leave what it holds.
        have hlater : ∀ member ∈ after, member.1.isAmong names = false := by
          intro member hmember
          by_contra hagain
          obtain ⟨name', hname', hfield'⟩ := hfield? member.1 (by simpa using hagain)
          have hfieldName : shape.fieldName? member = some field.name := by
            simp [fieldName?, hname', hfield']
          refine (shape.distinct_of_foldl depth hfold).2.1 field.name
            (List.mem_filterMap.mpr ⟨member, hmember, hfieldName⟩) (Finset.mem_insert_self _ _)
        rw [h.get_of_foldl hlater hfold]
        exact hgives _ _ _ _ (toOption_eq_some.mp hrecord)

end Members

end Sets

section Items

variable {depth : Depth} {ending : Ending} {targets : List (Field α)}

theorem get_of_readItems_leaving (htargets : ∀ target ∈ targets, target.Leaves get) {place : Nat}
    {items : List Doc} {record result : α}
    (hok : shape.readItems depth ending place targets items record = .ok result) :
    get result = get record := by
  induction targets generalizing place items record with
  | nil =>
    cases items with
    | nil =>
      obtain ⟨_, -, hok⟩ := bind_eq_ok_iff.mp hok
      rw [Except.ok.inj hok]
    | cons item rest => contradiction
  | cons target targets ih =>
    obtain ⟨htarget, htargets⟩ := List.forall_mem_cons.mp htargets
    cases items with
    | nil => rw [(readItems_nil_eq_ok_iff.mp hok).2.1]
    | cons item rest =>
      obtain ⟨next, hnext, hok⟩ := bind_eq_ok_iff.mp hok
      rw [ih htargets hok, htarget _ _ _ _ hnext]

theorem get_of_readItems {index : Nat} {field : Field α} (hfield : targets[index]? = some field)
    (hgives : field.Gives decode get) (hothers : ∀ other ∈ targets.eraseIdx index, other.Leaves get)
    {place : Nat} {items : List Doc} {record result : α}
    (hok : shape.readItems depth ending place targets items record = .ok result) :
    (items[index]? = none → get result = get record) ∧
      ∀ item, items[index]? = some item → decode depth item = .ok (get result) := by
  induction targets generalizing index place items record with
  | nil => simp at hfield
  | cons target targets ih =>
    cases items with
    | nil => simp [(readItems_nil_eq_ok_iff.mp hok).2.1]
    | cons item rest =>
      obtain ⟨next, hnext, hok⟩ := bind_eq_ok_iff.mp hok
      cases index with
      | zero =>
        obtain rfl : target = field := Option.some.inj hfield
        have hget := get_of_readItems_leaving hothers hok
        simp [hget, hgives _ _ _ _ hnext]
      | succ index =>
        rw [List.eraseIdx_cons_succ] at hothers
        obtain ⟨htarget, hothers⟩ := List.forall_mem_cons.mp hothers
        have hrest := ih hfield hothers hok
        rwa [htarget _ _ _ _ hnext] at hrest

end Items

theorem Sets.get_of_decode {index : Nat} (h : shape.Sets index names decode get) {depth : Depth}
    {doc : Doc} {record : α} (hok : shape.decode depth doc = .ok record) :
    (doc.givenAs names index = [] → get record = get shape.blank) ∧
      ∀ given ∈ doc.givenAs names index, decode (depth - 1) given = .ok (get record) := by
  match doc with
  | .object start members ending =>
    obtain ⟨inner, given, henter, hfold, -, -⟩ := (shape.decode_object_eq_ok_iff depth).mp hok
    obtain rfl := enter_eq_sub_one henter
    refine ⟨fun hnone => ?_, fun given hgiven => h.get_of_mem_givenIn hfold hgiven⟩
    refine h.get_of_foldl (fun member hmember => ?_) hfold
    by_contra hamong
    have hmem : member.2 ∈ Doc.givenIn names members :=
      Doc.mem_givenIn.mpr ⟨member.1, hmember, by simpa using hamong⟩
    exact absurd hnone (List.ne_nil_of_mem hmem)
  | .array start items ending =>
    obtain ⟨-, inner, henter, hok⟩ := (shape.decode_array_eq_ok_iff depth).mp hok
    obtain rfl := enter_eq_sub_one henter
    obtain ⟨field, hfield, -, hgives⟩ := h.field
    have hget := get_of_readItems hfield hgives h.fields hok
    simpa [Doc.givenAs] using hget
  | .null .. | .bool .. | .number .. | .string .. | .broken .. => contradiction

end Record

end Getters

end FlowScript.Json
