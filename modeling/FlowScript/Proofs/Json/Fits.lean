import FlowScript.Proofs.Json.Respelling
import FlowScript.Proofs.Json.Whole
import Mathlib.Data.List.Nodup

/-! Decoders that take the liberties of a form: one law for each way in which decoders are put
together. For a record it needs that the fields have distinct names and that it does not matter in
which order they are set. -/

namespace FlowScript.Json

theorem exists_of_forall₂_of_mem {β γ : Type} {R : β → γ → Prop} {bs : List β} {cs : List γ}
    (h : List.Forall₂ R bs cs) {b : β} (hb : b ∈ bs) : ∃ c ∈ cs, R b c := by
  induction h with
  | nil => contradiction
  | cons hhead _ ih =>
    rcases List.mem_cons.mp hb with rfl | hb
    · exact ⟨_, List.mem_cons_self, hhead⟩
    · obtain ⟨c, hc, hR⟩ := ih hb
      exact ⟨c, List.mem_cons_of_mem _ hc, hR⟩

/-- The decoder makes the same of all spellings of a document that it accepts, and accepts no
document that gives a field twice. -/
structure Form.Fits {α : Type} (form : Form) (decode : Decoder α) : Prop where
  respelled : ∀ {depth doc doc' a}, form.Respells doc doc' → doc'.isWhole →
    decode depth doc = .ok a → decode depth doc' = .ok a
  repeated : ∀ {depth doc a}, form.Repeats doc → decode depth doc ≠ .ok a

namespace Decoder

variable {α : Type} {decode : Decoder α} {depth : Depth}

theorem optional_eq_ok_iff {doc : Doc} (h : doc.isNull = false) {a : Option α} :
    decode.optional depth doc = .ok a ↔ ∃ value, decode depth doc = .ok value ∧ some value = a := by
  rw [optional_eq h, map_eq_ok_iff]

theorem decodeItems_eq_ok_iff {items : List Doc} {values : List α} :
    decodeItems decode depth items = .ok values ↔
      List.Forall₂ (fun item value => decode depth item = .ok value) items values := by
  induction items generalizing values with
  | nil => cases values <;> simp [decodeItems]
  | cons item rest ih =>
    rw [List.forall₂_cons_left_iff, decodeItems, bind_eq_ok_iff]
    simp only [bind_eq_ok_iff, pure, Except.pure, Except.ok.injEq, ih, exists_and_left,
      eq_comm (a := values)]

theorem list_array_eq_ok_iff {start : Nat} {items : List Doc} {ending : Ending} {values : List α} :
    decode.list depth (.array start items ending) = .ok values ↔
      ∃ inner, depth.enter start = .ok inner ∧ ending.isClosed ∧
        List.Forall₂ (fun item value => decode inner item = .ok value) items values := by
  simp only [list, bind_eq_ok_iff, ← Ending.ofArray_eq_ok_iff, ← decodeItems_eq_ok_iff, pure,
    Except.pure, Except.ok.injEq]
  grind

end Decoder

namespace Form

variable {α : Type} {form : Form} {decode : Decoder α}

theorem fits_plain (h : decode.IgnoresPlaces) : plain.Fits decode where
  respelled {depth doc doc' a} hsame _ hok := by
    rw [← toOption_eq_some] at hok ⊢
    rw [← hok, ← h depth doc, ← h depth doc', hsame]
  repeated := nofun

theorem fits_string : plain.Fits Decoder.string :=
  fits_plain Decoder.ignoresPlaces_string

theorem fits_json : plain.Fits Decoder.json :=
  fits_plain Decoder.ignoresPlaces_json

theorem fits_optional_string : plain.Fits Decoder.string.optional :=
  fits_plain Decoder.ignoresPlaces_string.optional

theorem fits_optional_float : plain.Fits Decoder.float.optional :=
  fits_plain Decoder.ignoresPlaces_float.optional

theorem fits_optional_members : plain.Fits Decoder.members.optional :=
  fits_plain Decoder.ignoresPlaces_members.optional

theorem fits_strict (h : decode.IgnoresPlaces)
    (hrepeated : ∀ {depth doc a}, form.Repeats doc → decode depth doc ≠ .ok a) :
    form.strict.Fits decode where
  respelled := (fits_plain h).respelled
  repeated := hrepeated

theorem Fits.optional (h : form.Fits decode) : form.optional.Fits decode.optional where
  respelled {depth doc doc' a} hrespells hwhole hok := by
    obtain ⟨hnull, hrespells⟩ := hrespells
    cases hdoc : doc.isNull with
    | true =>
      obtain ⟨start, stop, rfl⟩ := Doc.isNull_iff.mp hdoc
      obtain ⟨start', stop', rfl⟩ := Doc.isNull_iff.mp (hnull ▸ hdoc)
      exact hok
    | false =>
      obtain ⟨value, hvalue, rfl⟩ := (Decoder.optional_eq_ok_iff hdoc).mp hok
      exact (Decoder.optional_eq_ok_iff (hnull ▸ hdoc)).mpr
        ⟨value, h.respelled hrespells hwhole hvalue, rfl⟩
  repeated {depth doc a} hrepeats hok := by
    obtain ⟨hnull, hrepeats⟩ := hrepeats
    obtain ⟨value, hvalue, -⟩ := (Decoder.optional_eq_ok_iff hnull).mp hok
    exact h.repeated hrepeats hvalue

theorem Fits.forall₂_decode (h : form.Fits decode) {depth : Depth} {items items' : List Doc}
    (hrespells : List.Forall₂ form.Respells items items') (hwhole : ∀ item ∈ items', item.isWhole)
    {values : List α}
    (hok : List.Forall₂ (fun item value => decode depth item = .ok value) items values) :
    List.Forall₂ (fun item value => decode depth item = .ok value) items' values := by
  induction hrespells generalizing values with
  | nil => exact hok
  | cons hitem _ ih =>
    obtain ⟨hitem', hrest'⟩ := List.forall_mem_cons.mp hwhole
    cases hok with
    | cons hvalue hvalues => exact .cons (h.respelled hitem hitem' hvalue) (ih hrest' hvalues)

theorem Fits.list (h : form.Fits decode) : form.list.Fits decode.list where
  respelled {depth doc doc' values} hrespells hwhole hok := by
    cases hrespells with
    | @array start start' _ items' ending ending' hitems =>
      obtain ⟨inner, henter, -, hvalues⟩ := Decoder.list_array_eq_ok_iff.mp hok
      obtain ⟨hwhole, hclosed⟩ := Bool.and_eq_true_iff.mp hwhole
      exact Decoder.list_array_eq_ok_iff.mpr ⟨inner, enter_moved start' henter, hclosed,
        h.forall₂_decode hitems (Doc.itemsAreWhole_iff.mp hwhole) hvalues⟩
    | other hkind _ =>
      cases doc with
      | array start items ending => exact absurd rfl (hkind start items ending)
      | _ => contradiction
  repeated {depth doc values} hrepeats hok := by
    obtain ⟨hitem, hrepeats⟩ := hrepeats
    obtain ⟨inner, -, -, hvalues⟩ := Decoder.list_array_eq_ok_iff.mp hok
    obtain ⟨value, -, hvalue⟩ := exists_of_forall₂_of_mem hvalues hitem
    exact h.repeated hrepeats hvalue

end Form

section Fields

variable {α β : Type}

/-- A field that has the names of the form and takes its liberties. -/
structure FieldForm.Fits (field : FieldForm) (target : Field α) : Prop where
  names : target.names = field.names
  respelled : ∀ {depth doc doc' record next}, field.form.Respells doc doc' → doc'.isWhole →
    target.assign depth doc record = .ok next → target.assign depth doc' record = .ok next
  repeated : ∀ {depth doc record next}, field.form.Repeats doc →
    target.assign depth doc record ≠ .ok next

theorem Form.Fits.named {form : Form} {decode : Decoder β} (h : form.Fits decode)
    (names : List String) (set : β → α → α) :
    FieldForm.Fits ⟨names, form⟩ (Field.named names decode set) where
  names := rfl
  respelled {depth doc doc' record next} hrespells hwhole hok := by
    obtain ⟨value, hvalue, rfl⟩ := map_eq_ok_iff.mp hok
    exact map_eq_ok_iff.mpr ⟨value, h.respelled hrespells hwhole hvalue, rfl⟩
  repeated {depth doc record next} hrepeats hok := by
    obtain ⟨value, hvalue, -⟩ := map_eq_ok_iff.mp hok
    exact h.repeated hrepeats hvalue

theorem Form.Fits.needed {form : Form} {decode : Decoder β} (h : form.Fits decode)
    (names : List String) (set : β → α → α) :
    FieldForm.Fits ⟨names, form⟩ (Field.needed names decode set) where
  names := rfl
  respelled := (h.named names set).respelled
  repeated := (h.named names set).repeated

end Fields

namespace Record

variable {α : Type} {shape : Record α} {fields : List FieldForm}

theorem field?_eq_some (hdistinct : (shape.fields.flatMap Field.names).Nodup) {field : Field α}
    (hfield : field ∈ shape.fields) {name : String} (hname : name ∈ field.names) :
    shape.field? name = some field := by
  obtain ⟨found, hfound⟩ : ∃ found, shape.field? name = some found :=
    Option.isSome_iff_exists.mp (List.find?_isSome.mpr ⟨field, hfield, by simpa using hname⟩)
  have hmem : found ∈ shape.fields := List.mem_of_find?_eq_some hfound
  have hfoundName : name ∈ found.names := by simpa using List.find?_some hfound
  by_cases heq : found = field
  · rw [hfound, heq]
  · have hdisjoint := (List.nodup_flatMap.mp hdistinct).2
    have : Std.Symm (Function.onFun List.Disjoint (@Field.names α)) := ⟨fun _ _ h => h.symm⟩
    exact absurd hname (hdisjoint.forall hmem hfield heq hfoundName)

theorem field?_eq_none {name : String} (h : ∀ field ∈ shape.fields, name ∉ field.names) :
    shape.field? name = none :=
  List.find?_eq_none.mpr fun field hfield => by simpa using h field hfield

/-- The fields of the record have the given names and take the given liberties. -/
structure HasFields (shape : Record α) (fields : List FieldForm) : Prop where
  fits : List.Forall₂ FieldForm.Fits fields shape.fields
  distinct : (shape.fields.flatMap Field.names).Nodup

namespace HasFields

variable (h : shape.HasFields fields)
include h

theorem exists_field {field : FieldForm} (hfield : field ∈ fields) :
    ∃ target : Field α, field.Fits target ∧ ∀ name ∈ field.names,
      shape.field? name = some target := by
  obtain ⟨target, hmem, hfits⟩ := exists_of_forall₂_of_mem h.fits hfield
  exact ⟨target, hfits, fun name hname => field?_eq_some h.distinct hmem (hfits.names ▸ hname)⟩

theorem field?_of_not_spells {key : Key} (hkey : ∀ field ∈ fields, ¬ field.Spells key)
    {name : String} (hname : key.name = .ok name) : shape.field? name = none := by
  refine field?_eq_none fun target hmem hmemName => ?_
  obtain ⟨field, hfield, hfits⟩ := exists_of_forall₂_of_mem h.fits.flip hmem
  exact hkey field hfield ⟨name, hfits.names ▸ hmemName, hname⟩

theorem follows (hskips : shape.SkipsOthers) (depth : Depth) {member member' : Key × Doc}
    (hrespells : Form.RespellsMember fields member member') (hwhole : member'.2.isWhole) :
    shape.Follows depth member member' := by
  intro ⟨given, record⟩ next hstep
  cases hrespells with
  | field hfield hkey hkey' hdoc =>
    obtain ⟨target, hfits, htarget⟩ := h.exists_field hfield
    obtain ⟨name, hname, hkey⟩ := hkey
    obtain ⟨name', hname', hkey'⟩ := hkey'
    rw [step_of_field depth _ hkey (htarget name hname), Option.bind_some] at hstep
    rw [step_of_field depth _ hkey' (htarget name' hname'), Option.bind_some]
    dsimp only at hstep ⊢
    split at hstep
    · contradiction
    · next hgiven =>
      obtain ⟨record, hrecord, rfl⟩ := Option.map_eq_some_iff.mp hstep
      rw [toOption_eq_some] at hrecord
      rw [if_neg hgiven, hfits.respelled hdoc hwhole hrecord]
      rfl
  | @unread key key' doc doc' hkey hsame hdoc =>
    cases hname : key.name with
    | error fault =>
      rw [step_of_error depth _ hname] at hstep
      contradiction
    | ok name =>
      have hname' : key'.name = .ok name := by
        rw [← toOption_eq_some, ← hsame, hname, toOption_ok]
      have hnone := h.field?_of_not_spells hkey hname
      rw [step_of_other hskips depth _ hname hnone] at hstep
      rw [step_of_other hskips depth _ hname' hnone, ← Doc.toOption_skip_bare, ← hdoc,
        Doc.toOption_skip_bare]
      exact hstep

theorem step_extra (hskips : shape.SkipsOthers) (depth : Depth) {member : Key × Doc}
    (hextra : Form.IsExtra fields member.1) (hwhole : member.2.isWhole)
    (state : Finset String × α) : shape.step depth (some state) member = some state := by
  obtain ⟨⟨name, hname⟩, hkey⟩ := hextra
  rw [step_of_other hskips depth _ hname (h.field?_of_not_spells hkey hname),
    Doc.skip_of_isWhole _ hwhole]
  rfl

theorem foldl_step_respelled (hskips : shape.SkipsOthers)
    (hcommute : shape.fields.Pairwise Field.Commutes) {depth : Depth}
    {members renamed extra members' : List (Key × Doc)}
    (hrenamed : List.Forall₂ (Form.RespellsMember fields) members renamed)
    (hextra : ∀ member ∈ extra, Form.IsExtra fields member.1)
    (horder : (renamed ++ extra).Perm members') (hwhole : ∀ member ∈ members', member.2.isWhole)
    {state next : Finset String × α}
    (hfold : members.foldl (shape.step depth) (some state) = some next) :
    members'.foldl (shape.step depth) (some state) = some next := by
  -- The order is undone first. The renamed members are then read as the members were, and the extra
  -- ones behind them change nothing.
  have hwhole : ∀ member ∈ renamed ++ extra, member.2.isWhole :=
    fun member hmember => hwhole member (horder.subset hmember)
  obtain ⟨hwholeRenamed, hwholeExtra⟩ := List.forall_mem_append.mp hwhole
  have hfollows : List.Forall₂ (shape.Follows depth) members renamed := by
    refine List.forall₂_iff_zip.mpr ⟨hrenamed.length_eq, fun {first second} hmem => ?_⟩
    have hsecond := hwholeRenamed second (List.of_mem_zip hmem).2
    exact h.follows hskips depth ((List.forall₂_iff_zip.mp hrenamed).2 hmem) hsecond
  calc members'.foldl (shape.step depth) (some state)
    _ = (renamed ++ extra).foldl (shape.step depth) (some state) :=
      (foldl_step_perm hskips hcommute depth horder _).symm
    _ = extra.foldl (shape.step depth) (some next) := by
      rw [List.foldl_append, shape.foldl_step_of_follows depth hfollows hfold]
    _ = some next := shape.foldl_step_of_neutral depth fun member hmember =>
      h.step_extra hskips depth (hextra member hmember) (hwholeExtra member hmember) next

theorem fieldName?_of_spells {field : FieldForm} (hfield : field ∈ fields) :
    ∃ name, ∀ member : Key × Doc, field.Spells member.1 → shape.fieldName? member = some name := by
  obtain ⟨target, -, htarget⟩ := h.exists_field hfield
  refine ⟨target.name, fun member hmember => ?_⟩
  obtain ⟨name, hname, hkey⟩ := hmember
  simp [fieldName?, hkey, htarget name hname]

theorem step_repeats {depth : Depth} {field : FieldForm} (hfield : field ∈ fields) {key : Key}
    {doc : Doc} (hkey : field.Spells key) (hrepeats : field.form.Repeats doc)
    (state : Finset String × α) : shape.step depth (some state) (key, doc) = none := by
  obtain ⟨target, hfits, htarget⟩ := h.exists_field hfield
  obtain ⟨name, hname, hkey⟩ := hkey
  rw [step_of_field depth _ hkey (htarget name hname), Option.bind_some]
  cases hassign : target.assign depth doc state.2 with
  | ok next => exact absurd hassign (hfits.repeated hrepeats)
  | error fault => simp [hassign]

end HasFields

section Items

variable {depth : Depth}

theorem readItems_nil_eq_ok_iff {ending : Ending} {index : Nat} {targets : List (Field α)}
    {record result : α} :
    shape.readItems depth ending index targets [] record = .ok result ↔
      ending.isClosed ∧ record = result ∧ ∀ target ∈ targets, target.required = false := by
  induction targets generalizing index with
  | nil => cases ending <;> simp [readItems, Ending.ofFullArray, Ending.isClosed]
  | cons target targets ih =>
    rw [readItems, bind_eq_ok_iff]
    cases ending <;> cases hrequired : target.required <;>
      simp [hrequired, ih, Ending.ofArray, Ending.isClosed, bind_eq_ok_iff, throw, throwThe,
        MonadExceptOf.throw]

theorem readItems_respelled {targets : List (Field α)}
    (hfits : List.Forall₂ FieldForm.Fits fields targets) {items items' : List Doc}
    (hitems : Form.RespellsItems fields items items') (hwhole : ∀ item ∈ items', item.isWhole)
    {ending ending' : Ending} (hclosed : ending'.isClosed) {index : Nat} {record result : α}
    (hok : shape.readItems depth ending index targets items record = .ok result) :
    shape.readItems depth ending' index targets items' record = .ok result := by
  induction hitems generalizing targets index record with
  | nil => exact readItems_nil_eq_ok_iff.mpr ⟨hclosed, (readItems_nil_eq_ok_iff.mp hok).2⟩
  | cons hitem _ ih =>
    obtain ⟨hwholeItem, hwholeItems⟩ := List.forall_mem_cons.mp hwhole
    cases hfits with
    | cons htarget htargets =>
      obtain ⟨next, hnext, hok⟩ := bind_eq_ok_iff.mp hok
      exact bind_eq_ok_iff.mpr
        ⟨next, htarget.respelled hitem hwholeItem hnext, ih htargets hwholeItems hok⟩
  | @surplus items items' hsame =>
    cases hfits with
    | nil =>
      cases items with
      | cons => contradiction
      | nil =>
        cases items' with
        | cons => simp [Doc.bareItems] at hsame
        | nil => exact readItems_nil_eq_ok_iff.mpr ⟨hclosed, (readItems_nil_eq_ok_iff.mp hok).2⟩

theorem readItems_repeats {targets : List (Field α)}
    (hfits : List.Forall₂ FieldForm.Fits fields targets) {items : List Doc} {field : FieldForm}
    {item : Doc} (hitem : (field, item) ∈ fields.zip items) (hrepeats : field.form.Repeats item)
    {ending : Ending} {index : Nat} {record result : α} :
    shape.readItems depth ending index targets items record ≠ .ok result := by
  intro hok
  induction hfits generalizing items index record with
  | nil => simp at hitem
  | cons htarget _ ih =>
    cases items with
    | nil => simp at hitem
    | cons first rest =>
      obtain ⟨next, hnext, hok⟩ := bind_eq_ok_iff.mp hok
      rw [List.zip_cons_cons, List.mem_cons, Prod.mk.injEq] at hitem
      obtain ⟨rfl, rfl⟩ | hitem := hitem
      · exact htarget.repeated hrepeats hnext
      · exact ih hitem hok

end Items

theorem HasFields.repeated (h : shape.HasFields fields) {depth : Depth} {doc : Doc} {record : α}
    (hrepeats : (Form.record fields).Repeats doc) : shape.decode depth doc ≠ .ok record := by
  intro hok
  cases hrepeats with
  | @twice _ members _ first second field hfield hfirst hsecond hmembers =>
    obtain ⟨inner, given, -, hfold, -, -⟩ := (shape.decode_object_eq_ok_iff depth).mp hok
    obtain ⟨name, hname⟩ := h.fieldName?_of_spells hfield
    have hnames := hmembers.filterMap shape.fieldName?
    rw [List.filterMap_cons_some (hname first hfirst),
      List.filterMap_cons_some (hname second hsecond)] at hnames
    simpa using (shape.distinct_of_foldl inner hfold).1.sublist hnames
  | member hfield hkey hmember hrepeats =>
    obtain ⟨inner, given, -, hfold, -, -⟩ := (shape.decode_object_eq_ok_iff depth).mp hok
    obtain ⟨before, after, hstep⟩ := (shape.distinct_of_foldl inner hfold).2.2 _ hmember
    rw [h.step_repeats hfield hkey hrepeats] at hstep
    contradiction
  | item hitem hrepeats =>
    obtain ⟨-, inner, -, hok⟩ := (shape.decode_array_eq_ok_iff depth).mp hok
    exact readItems_repeats h.fits hitem hrepeats hok

/-- A record takes all liberties if its fields can be set in any order. -/
theorem HasFields.fits_record (h : shape.HasFields fields) (hskips : shape.SkipsOthers)
    (hcommute : shape.fields.Pairwise Field.Commutes) : (Form.record fields).Fits shape.decode where
  respelled {depth doc doc' record} hrespells hwhole hok := by
    cases hrespells with
    | @object start start' members renamed extra members' ending ending' hrenamed hextra horder =>
      obtain ⟨hwhole, hclosed⟩ := Bool.and_eq_true_iff.mp hwhole
      obtain ⟨inner, given, henter, hfold, hcomplete, -⟩ :=
        (shape.decode_object_eq_ok_iff depth).mp hok
      have hfold' := h.foldl_step_respelled hskips hcommute hrenamed hextra horder
        (Doc.membersAreWhole_iff.mp hwhole) hfold
      exact (shape.decode_object_eq_ok_iff depth).mpr
        ⟨inner, given, enter_moved start' henter, hfold', hcomplete, hclosed⟩
    | @array start start' items items' ending ending' hitems =>
      obtain ⟨hwhole, hclosed⟩ := Bool.and_eq_true_iff.mp hwhole
      obtain ⟨hpositional, inner, henter, hok⟩ := (shape.decode_array_eq_ok_iff depth).mp hok
      exact (shape.decode_array_eq_ok_iff depth).mpr ⟨hpositional, inner, enter_moved start' henter,
        readItems_respelled h.fits hitems (Doc.itemsAreWhole_iff.mp hwhole) hclosed hok⟩
    | other hobject harray _ =>
      cases doc with
      | object start members ending => exact absurd rfl (hobject start members ending)
      | array start items ending => exact absurd rfl (harray start items ending)
      | _ => contradiction
  repeated := h.repeated

end Record

section Texts

variable {α : Type} {form : Form} {decode : Decoder α} {text : String}

theorem decodeText_eq_ok_iff {a : α} :
    decodeText decode text = .ok a ↔
      decode .full (Doc.ofText text).1 = .ok a ∧
        ∀ stop, (Doc.ofText text).2 = some stop → stop.rest = [] := by
  unfold decodeText
  generalize Doc.ofText text = step
  obtain ⟨doc, stop⟩ := step
  rw [bind_eq_ok_iff]
  cases stop with
  | none => simp [pure, Except.pure]
  | some stop =>
    by_cases hrest : stop.rest = [] <;>
      simp [hrest, pure, Except.pure, throw, throwThe, MonadExceptOf.throw]

theorem decodeText_eq_error {fault : Fault}
    (h : decode .full (Doc.ofText text).1 = .error fault) :
    decodeText decode text = .error fault := by
  unfold decodeText
  generalize Doc.ofText text = step at h ⊢
  obtain ⟨doc, stop⟩ := step
  dsimp only at h ⊢
  rw [h]
  rfl

theorem Form.Fits.decodeText_respelled (h : form.Fits decode) {text' : String} {a : α}
    (hok : decodeText decode text = .ok a)
    (hrespells : form.Respells (Doc.ofText text).1 (Doc.ofText text').1)
    (htext : Doc.IsText text') : decodeText decode text' = .ok a := by
  obtain ⟨stop, hstop, hrest⟩ := htext
  have hdoc := (decodeText_eq_ok_iff.mp hok).1
  refine decodeText_eq_ok_iff.mpr ⟨h.respelled hrespells (Doc.isWhole_ofText hstop) hdoc, ?_⟩
  intro stop' hstop'
  rw [hstop] at hstop'
  exact Option.some.inj hstop' ▸ hrest

theorem Form.Fits.decodeText_repeated (h : form.Fits decode)
    (hrepeats : form.Repeats (Doc.ofText text).1) :
    ∃ fault, decodeText decode text = .error fault := by
  cases hdecode : decodeText decode text with
  | error fault => exact ⟨fault, rfl⟩
  | ok a => exact absurd (decodeText_eq_ok_iff.mp hdecode).1 (h.repeated hrepeats)

end Texts

end FlowScript.Json
