import FlowScript.Proofs.Flow.Sufficiency
import FlowScript.Proofs.Json.Rereading

/-! What is read of the options that a descriptor gives. Each known option comes from one member,
unless that is null, and the others are collected in the order in which they were given. -/

namespace FlowScript

open Json (Decoder Depth Doc Field Key Record bind_eq_ok_iff toOption_eq_some)

namespace Stage

structure Passes (doc : Doc) (stage : Stage) : Prop where
  given : Suffices doc
  duration : ∀ given ∈ doc.givenAs ["duration"] 0,
    given.toJson .full = .ok (.string stage.duration)
  target : ∀ given ∈ doc.givenAs ["target"] 1,
    given.toJson .full = .ok (.number (.natural stage.target))

end Stage

namespace ExecutionOptions

def knownNames : List String := ["vus", "duration", "iterations", "stages", "thresholds"]

/-- What is given under a name and is not null. -/
def givenUnder (name : String) (members : List (Key × Doc)) : List (Key × Doc) :=
  members.filter fun member => member.1.isAmong [name] && !member.2.isNull

def knownMembers (members : List (Key × Doc)) : List (Key × Doc) :=
  knownNames.flatMap (givenUnder · members)

def otherMembers (members : List (Key × Doc)) : List (Key × Doc) :=
  members.filter fun member => !member.1.isAmong knownNames

/-- The member is passed on under its name and with its value. Of stages, only the durations and the
targets are passed on. -/
structure Passes (member : Key × Doc) (passed : String × Json) : Prop where
  name : member.1.name = .ok passed.1
  value : passed.1 ≠ "stages" → member.2.toJson .full = .ok passed.2
  stages : passed.1 = "stages" → ∃ start items ending stages,
    member.2 = .array start items ending ∧ passed.2 = .array (stages.map Stage.toJson) ∧
      List.Forall₂ Stage.Passes items stages

end ExecutionOptions

namespace Stage

theorem passes_of_decode {depth : Depth} {doc : Doc} {stage : Stage}
    (hok : shape.decode depth doc = .ok stage) : Passes doc stage where
  given := suffices_iff.mp (isReducible.suffices_of_decode hok)
  duration given hgiven := by
    have hsets := isPlain.sets_needed 0 Stage.duration rfl (fun _ _ => rfl)
      (by simp [shape, Field.leaves_needed])
    exact Decoder.toJson_of_string ((hsets.get_of_decode hok).2 given hgiven)
  target given hgiven := by
    have hsets := isPlain.sets_needed 1 Stage.target rfl (fun _ _ => rfl)
      (by simp [shape, Field.leaves_needed])
    exact Decoder.toJson_of_natural ((hsets.get_of_decode hok).2 given hgiven)

theorem decode_toDoc {depth : Nat} (hdepth : 1 < depth) (stage : Stage) :
    shape.decode depth stage.toJson.toDoc = .ok stage := by
  refine (shape.decode_object_eq_ok_iff depth).mpr ⟨_, _, Json.enter_eq_ok 0 hdepth, rfl, ?_, rfl⟩
  simp [Record.IsComplete, shape, Field.needed, Field.named, Field.name]

end Stage

namespace ExecutionOptions

section Known

variable {β : Type} {index : Nat} {name : String} {decode : Decoder β}
  {get : ExecutionOptions → Option β}

theorem othersLeave (h : ∀ extra options, get { options with extra } = get options) :
    shape.OthersLeave get := by
  intro name depth doc options next hok
  obtain ⟨value, -, hok⟩ := bind_eq_ok_iff.mp hok
  obtain rfl := Except.ok.inj hok
  exact h _ _

theorem sets_named (get : ExecutionOptions → Option β)
    {set : Option β → ExecutionOptions → ExecutionOptions}
    (hfield : shape.fields[index]? = some (.named [name] decode.optional set))
    (hset : ∀ b options, get (set b options) = b)
    (hfields : ∀ other ∈ shape.fields.eraseIdx index, other.Leaves get)
    (hothers : ∀ extra options, get { options with extra } = get options) :
    shape.Sets index [name] decode.optional get :=
  ⟨⟨_, hfield, rfl, Field.gives_named hset⟩, hfields, othersLeave hothers, by decide⟩

theorem sets_vus : shape.Sets 0 ["vus"] Decoder.natural.optional vus :=
  sets_named vus rfl (fun _ _ => rfl) (by simp [shape, Field.leaves_named]) fun _ _ => rfl

theorem sets_duration : shape.Sets 1 ["duration"] Decoder.string.optional duration :=
  sets_named duration rfl (fun _ _ => rfl) (by simp [shape, Field.leaves_named]) fun _ _ => rfl

theorem sets_iterations : shape.Sets 2 ["iterations"] Decoder.natural.optional iterations :=
  sets_named iterations rfl (fun _ _ => rfl) (by simp [shape, Field.leaves_named]) fun _ _ => rfl

theorem sets_stages : shape.Sets 3 ["stages"] Stage.shape.decode.list.optional stages :=
  sets_named stages rfl (fun _ _ => rfl) (by simp [shape, Field.leaves_named]) fun _ _ => rfl

theorem sets_thresholds : shape.Sets 4 ["thresholds"] Decoder.members.optional thresholds :=
  sets_named thresholds rfl (fun _ _ => rfl) (by simp [shape, Field.leaves_named]) fun _ _ => rfl

variable {depth : Depth} {start : Nat} {members : List (Key × Doc)} {ending : Json.Ending}
  {options : ExecutionOptions}

theorem forall₂_givenUnder (hsets : shape.Sets index [name] decode.optional get)
    (hblank : get shape.blank = .none) (toJson : β → Json)
    (hpasses : ∀ key doc b, key.name = .ok name → decode (depth - 1) doc = .ok b →
      Passes (key, doc) (name, toJson b))
    (hok : shape.decode depth (.object start members ending) = .ok options)
    (hdistinct : (members.map (·.1.name)).Nodup) :
    List.Forall₂ Passes (givenUnder name members)
      ((get options).map fun b => (name, toJson b)).toList := by
  obtain ⟨hnone, hgiven⟩ := hsets.get_of_decode hok
  have hsplit : givenUnder name members =
      (members.filter (·.1.isAmong [name])).filter fun member => !member.2.isNull := by
    rw [List.filter_filter]
    exact List.filter_congr fun member _ => Bool.and_comm _ _
  -- At most one member has the name, and what it gives is what the record holds.
  obtain hfound | ⟨⟨key, doc⟩, hkey, hfound⟩ := Key.filter_isAmong_of_nodup hdistinct name
  · rw [hsplit, hfound, hnone (by rw [Doc.givenAs, Doc.givenIn, hfound]; rfl), hblank]
    exact .nil
  · have hdecode := hgiven doc (by rw [Doc.givenAs, Doc.givenIn, hfound]; exact List.mem_cons_self)
    cases hnull : doc.isNull with
    | true =>
      obtain ⟨_, _, rfl⟩ := Doc.isNull_iff.mp hnull
      rw [hsplit, hfound, ← Except.ok.inj hdecode]
      exact .nil
    | false =>
      obtain ⟨b, hb, hget⟩ := (Decoder.optional_eq_ok_iff hnull).mp hdecode
      rw [hsplit, hfound, ← hget, List.filter_cons_of_pos (by simp [hnull])]
      exact .cons (hpasses key doc b hkey hb) .nil

theorem passes_value {key : Key} {doc : Doc} {value : Json} (hname : key.name = .ok name)
    (hne : name ≠ "stages") (hvalue : doc.toJson .full = .ok value) :
    Passes (key, doc) (name, value) :=
  ⟨hname, fun _ => hvalue, fun h => absurd h hne⟩

theorem passes_stages {key : Key} {doc : Doc} {stages : List Stage}
    (hname : key.name = .ok "stages") (hstages : Stage.shape.decode.list depth doc = .ok stages) :
    Passes (key, doc) ("stages", .array (stages.map Stage.toJson)) := by
  refine ⟨hname, fun h => absurd rfl h, fun _ => ?_⟩
  cases doc with
  | array start items ending =>
    obtain ⟨_, -, -, hitems⟩ := Decoder.list_array_eq_ok_iff.mp hstages
    exact ⟨start, items, ending, stages, rfl, rfl,
      hitems.imp fun _ _ => Stage.passes_of_decode⟩
  | _ => contradiction

theorem forall₂_knownMembers (hdepth : depth ≤ Depth.full)
    (hok : shape.decode depth (.object start members ending) = .ok options)
    (hdistinct : (members.map (·.1.name)).Nodup) :
    List.Forall₂ Passes (knownMembers members) options.known := by
  have hlevels : depth - 1 ≤ Depth.full := Nat.le_trans (Nat.sub_le depth 1) hdepth
  have hvus := forall₂_givenUnder sets_vus rfl (fun n => .number (.natural n))
    (fun _ _ _ hname h => passes_value hname (by decide) (Decoder.toJson_of_natural h)) hok hdistinct
  have hduration := forall₂_givenUnder sets_duration rfl .string
    (fun _ _ _ hname h => passes_value hname (by decide) (Decoder.toJson_of_string h)) hok hdistinct
  have hiterations := forall₂_givenUnder sets_iterations rfl (fun n => .number (.natural n))
    (fun _ _ _ hname h => passes_value hname (by decide) (Decoder.toJson_of_natural h)) hok hdistinct
  have hstages := forall₂_givenUnder sets_stages rfl (fun all => .array (all.map Stage.toJson))
    (fun _ _ _ => passes_stages) hok hdistinct
  have hthresholds := forall₂_givenUnder sets_thresholds rfl .object
    (fun _ _ _ hname h => passes_value hname (by decide) (Decoder.toJson_of_members hlevels h))
    hok hdistinct
  simp only [knownMembers, knownNames, List.flatMap_cons, List.flatMap_nil, List.append_nil]
  unfold known
  simp only [List.append_assoc]
  exact List.rel_append hvus (List.rel_append hduration (List.rel_append hiterations
    (List.rel_append hstages hthresholds)))

end Known

section Others

variable {depth : Depth} {state next : Finset String × ExecutionOptions}

theorem field?_eq_none_iff {name : String} : shape.field? name = .none ↔ name ∉ knownNames := by
  simp [Record.field?, shape, Field.named, knownNames]

theorem fields_leave_extra : ∀ field ∈ shape.fields, field.Leaves extra := by
  simp [shape, Field.leaves_named]

structure Gives (depth : Depth) (member : Key × Doc) (given : String × Json) : Prop where
  name : member.1.name = .ok given.1
  unknown : given.1 ∉ knownNames
  value : member.2.toJson depth = .ok given.2

theorem extra_of_step {member : Key × Doc}
    (hstep : shape.step depth (some state) member = some next) :
    (member.1.isAmong knownNames ∧ next.2.extra = state.2.extra) ∨
      member.1.isAmong knownNames = false ∧ ∃ given, Gives depth member given ∧
        next.2.extra = Json.insert given.1 given.2 state.2.extra := by
  unfold Record.step at hstep
  rw [Option.bind_some, Option.bind_eq_some_iff] at hstep
  obtain ⟨name, hname, hstep⟩ := hstep
  rw [toOption_eq_some] at hname
  have hamong : member.1.isAmong knownNames ↔ name ∈ knownNames := by
    simp [Key.isAmong_iff, hname]
  split at hstep
  · next hfield =>
    obtain ⟨options, hoptions, rfl⟩ := Option.map_eq_some_iff.mp hstep
    obtain ⟨value, hvalue, hoptions⟩ := bind_eq_ok_iff.mp (toOption_eq_some.mp hoptions)
    obtain rfl := Except.ok.inj hoptions
    have hunknown : name ∉ knownNames := field?_eq_none_iff.mp hfield
    exact .inr ⟨Bool.eq_false_iff.mpr fun h => hunknown (hamong.mp h), (name, value),
      ⟨hname, hunknown, hvalue⟩, rfl⟩
  · next field hfield =>
    split at hstep
    · contradiction
    · obtain ⟨options, hoptions, rfl⟩ := Option.map_eq_some_iff.mp hstep
      have hknown : name ∈ knownNames := by
        by_contra hunknown
        rw [field?_eq_none_iff.mpr hunknown] at hfield
        contradiction
      exact .inl ⟨hamong.mpr hknown, fields_leave_extra field (List.mem_of_find?_eq_some hfield)
        _ _ _ _ (toOption_eq_some.mp hoptions)⟩

theorem exists_extra_of_foldl {members : List (Key × Doc)}
    (hfold : members.foldl (shape.step depth) (some state) = some next) :
    ∃ values, List.Forall₂ (Gives depth) (otherMembers members) values ∧
      next.2.extra =
        values.foldl (fun acc (name, value) => Json.insert name value acc) state.2.extra := by
  induction members generalizing state with
  | nil =>
    obtain rfl := Option.some.inj hfold
    exact ⟨[], .nil, rfl⟩
  | cons member rest ih =>
    rw [List.foldl_cons] at hfold
    cases hstep : shape.step depth (some state) member with
    | none => simp [hstep, Record.foldl_step_none] at hfold
    | some between =>
      rw [hstep] at hfold
      obtain ⟨values, hvalues, hextra⟩ := ih hfold
      obtain ⟨hknown, hsame⟩ | ⟨hother, given, hgives, hinsert⟩ := extra_of_step hstep
      · refine ⟨values, ?_, hsame ▸ hextra⟩
        rwa [otherMembers, List.filter_cons_of_neg (by simp [hknown])]
      · refine ⟨given :: values, ?_, by rw [hextra, hinsert]; rfl⟩
        rw [otherMembers, List.filter_cons_of_pos (by simp [hother])]
        exact .cons hgives hvalues

variable {members : List (Key × Doc)} {values : List (String × Json)}

theorem nodup_of_forall₂ (h : List.Forall₂ (Gives depth) (otherMembers members) values)
    (hdistinct : (members.map (·.1.name)).Nodup) : (values.map Prod.fst).Nodup := by
  have hnames : (otherMembers members).map (·.1.name) = (values.map Prod.fst).map .ok := by
    rw [List.map_map, ← List.forall₂_eq_eq_eq, List.forall₂_map_left_iff,
      List.forall₂_map_right_iff]
    exact h.imp fun _ _ hgives => hgives.name
  have hnodup : ((otherMembers members).map (·.1.name)).Nodup :=
    hdistinct.sublist (List.filter_sublist.map _)
  rw [hnames] at hnodup
  exact hnodup.of_map

end Others

/-- What reading makes sure of: no key stands twice, and all values are read again. -/
structure IsRead (depth : Depth) (options : ExecutionOptions) : Prop where
  thresholds : ∀ all, options.thresholds = some all → (Json.object all).Rereads depth
  keys : (options.extra.map Prod.fst).Nodup
  unknown : ∀ member ∈ options.extra, member.1 ∉ knownNames
  extra : ∀ member ∈ options.extra, member.2.Rereads depth

theorem IsRead.of_le {depth more : Nat} {options : ExecutionOptions} (h : options.IsRead depth)
    (hmore : depth ≤ more) : options.IsRead more where
  thresholds all hall := (h.thresholds all hall).of_le hmore
  keys := h.keys
  unknown := h.unknown
  extra member hmember := (h.extra member hmember).of_le hmore

section Read

variable {depth : Depth} {start : Nat} {members : List (Key × Doc)} {ending : Json.Ending}
  {options : ExecutionOptions}

theorem exists_extra_of_decode
    (hok : shape.decode depth (.object start members ending) = .ok options) :
    ∃ values, List.Forall₂ (Gives (depth - 1)) (otherMembers members) values ∧
      options.extra = Json.ofMembers values := by
  obtain ⟨inner, given, henter, hfold, -⟩ := (shape.decode_object_eq_ok_iff depth).mp hok
  obtain rfl := Json.enter_eq_sub_one henter
  exact exists_extra_of_foldl hfold

theorem rereads_thresholds (hok : shape.decode depth (.object start members ending) = .ok options)
    {all : List (String × Json)} (hall : options.thresholds = some all) :
    (Json.object all).Rereads (depth - 1) := by
  obtain ⟨hnone, hgiven⟩ := sets_thresholds.get_of_decode hok
  have hne : (Doc.object start members ending).givenAs ["thresholds"] 4 ≠ [] := by
    intro h
    rw [hnone h] at hall
    contradiction
  obtain ⟨doc, hdoc⟩ := List.exists_mem_of_ne_nil _ hne
  have hdecode := hgiven doc hdoc
  rw [hall] at hdecode
  have hnull : doc.isNull = false := by
    by_contra hnull
    obtain ⟨_, _, rfl⟩ := Doc.isNull_iff.mp (by simpa using hnull)
    exact nomatch hdecode
  obtain ⟨members, hmembers, hsame⟩ := (Decoder.optional_eq_ok_iff hnull).mp hdecode
  obtain rfl := Option.some.inj hsame
  exact Json.rereads_of_toJson doc (Decoder.members_eq_ok_iff.mp hmembers)

theorem isRead_of_decode (hok : shape.decode depth (.object start members ending) = .ok options) :
    options.IsRead (depth - 1) := by
  obtain ⟨values, hvalues, hextra⟩ := exists_extra_of_decode hok
  obtain ⟨hkeys, hmem⟩ := Json.ofMembers_spec values
  have hgives : ∀ given ∈ options.extra, ∃ member, Gives (depth - 1) member given := by
    intro given hgiven
    rw [hextra] at hgiven
    obtain ⟨member, -, hgives⟩ := Json.exists_of_forall₂_of_mem hvalues.flip (hmem given hgiven)
    exact ⟨member, hgives⟩
  refine ⟨fun _ => rereads_thresholds hok, hextra ▸ hkeys, fun given hgiven => ?_,
    fun given hgiven => ?_⟩
  · obtain ⟨_, hgives⟩ := hgives given hgiven
    exact hgives.unknown
  · obtain ⟨member, hgives⟩ := hgives given hgiven
    exact Json.rereads_of_toJson member.2 hgives.value

theorem forall₂_otherMembers (hdepth : depth ≤ Depth.full)
    (hok : shape.decode depth (.object start members ending) = .ok options)
    (hdistinct : (members.map (·.1.name)).Nodup) :
    List.Forall₂ Passes (otherMembers members) options.extra := by
  have hlevels : depth - 1 ≤ Depth.full := Nat.le_trans (Nat.sub_le depth 1) hdepth
  obtain ⟨values, hvalues, hextra⟩ := exists_extra_of_decode hok
  rw [hextra, Json.ofMembers_of_nodup (nodup_of_forall₂ hvalues hdistinct)]
  refine hvalues.imp fun member given hgives => ⟨hgives.name, fun _ => ?_, fun hstages => ?_⟩
  · exact Json.toJson_of_le hlevels member.2 hgives.value
  · exact absurd (hstages ▸ hgives.unknown) (by decide)

end Read

end ExecutionOptions

end FlowScript
