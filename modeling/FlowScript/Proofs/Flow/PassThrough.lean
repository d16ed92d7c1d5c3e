import FlowScript.Compile.Sections
import FlowScript.Proofs.Flow.Options
import FlowScript.Proofs.Flow.Validity

/-! Options on their way from a descriptor to its script. The known ones come first and in a fixed
order, all others follow, and what is written is read as the same options. -/

namespace FlowScript

open Json (Decoder Depth Doc Field Key Record bind_eq_ok_iff map_eq_ok_iff)

namespace ExecutionOptions

section Emission

variable {depth : Depth} {options : ExecutionOptions}

theorem keys_sublist {β : Type} (name : String) (toJson : β → Json) (b? : Option β) :
    ((b?.map fun b => (name, toJson b)).toList.map Prod.fst).Sublist [name] := by
  cases b? <;> simp

theorem known_keys_sublist (options : ExecutionOptions) :
    (options.known.map Prod.fst).Sublist knownNames := by
  unfold known
  simp only [List.map_append]
  exact ((((keys_sublist _ _ _).append (keys_sublist _ _ _)).append (keys_sublist _ _ _)).append
    (keys_sublist _ _ _)).append (keys_sublist _ _ _)

theorem IsRead.toJson_eq (h : options.IsRead depth) :
    options.toJson = .object (options.known ++ options.extra) := by
  have hknown : (options.known.map Prod.fst).Nodup :=
    (known_keys_sublist options).nodup (by decide)
  have hnodup : ((options.known ++ options.extra).map Prod.fst).Nodup := by
    rw [List.map_append]
    refine hknown.append h.keys fun key hkey hextra => ?_
    obtain ⟨member, hmember, rfl⟩ := List.mem_map.mp hextra
    exact h.unknown member hmember ((known_keys_sublist options).subset hkey)
  rw [toJson, Json.ofMembers_of_nodup hnodup]

end Emission

section Rereading

variable {depth : Nat}

/-- When at most the first names were given, the members are read, and at most the second names are
given then. -/
def Brings (depth : Depth) (names names' : List String) (members : List (String × Json))
    (options options' : ExecutionOptions) : Prop :=
  ∀ given : Finset String, (∀ key ∈ given, key ∈ names) →
    ∃ given' : Finset String, (∀ key ∈ given', key ∈ names') ∧
      (Json.toMemberDocs members).foldl (shape.step depth) (some (given, options)) =
        some (given', options')

variable {names names' names'' : List String} {options options' options'' : ExecutionOptions}

theorem Brings.append {members members' : List (String × Json)}
    (h : Brings depth names names' members options options')
    (h' : Brings depth names' names'' members' options' options'') :
    Brings depth names names'' (members ++ members') options options'' := by
  intro given hgiven
  obtain ⟨between, hbetween, hfold⟩ := h given hgiven
  obtain ⟨given', hgiven', hfold'⟩ := h' between hbetween
  refine ⟨given', hgiven', ?_⟩
  rw [Json.toMemberDocs_append, List.foldl_append, hfold, hfold']

theorem brings_known {β : Type} (name : String) {decode : Decoder β}
    (set : Option β → ExecutionOptions → ExecutionOptions) (toJson : β → Json) {b? : Option β}
    (hfield : shape.field? name = some (.named [name] decode.optional set))
    (hread : ∀ b, b? = some b → decode.optional depth (toJson b).toDoc = .ok (some b))
    (hset : set .none options = options) (hnew : name ∉ names) :
    Brings depth names (name :: names) (b?.map fun b => (name, toJson b)).toList options
      (set b? options) := by
  intro given hgiven
  cases b? with
  | none =>
    refine ⟨given, fun key hkey => List.mem_cons_of_mem _ (hgiven key hkey), ?_⟩
    rw [hset]
    rfl
  | some b =>
    have hname : (Field.named [name] decode.optional set).name ∉ given :=
      fun hmem => hnew (hgiven name hmem)
    have hassign : (Field.named [name] decode.optional set).assign depth (toJson b).toDoc options =
        .ok (set (some b) options) :=
      map_eq_ok_iff.mpr ⟨some b, hread b rfl, rfl⟩
    refine ⟨insert name given, fun key hkey => ?_, ?_⟩
    · exact List.mem_cons.mpr ((Finset.mem_insert.mp hkey).imp_right (hgiven key))
    · show shape.step depth (some (given, options)) (⟨.ok name, 0⟩, (toJson b).toDoc) = _
      rw [Record.step_of_field depth _ rfl hfield, Option.bind_some]
      dsimp only
      rw [if_neg hname, hassign]
      rfl

theorem step_of_unknown {name : String} (hname : name ∉ knownNames) {value : Json}
    (hvalue : value.Rereads depth) (given : Finset String) :
    shape.step depth (some (given, options)) (⟨.ok name, 0⟩, value.toDoc) =
      some (given, { options with extra := Json.insert name value options.extra }) := by
  have hother : shape.other name depth value.toDoc options =
      .ok { options with extra := Json.insert name value options.extra } :=
    bind_eq_ok_iff.mpr ⟨value, hvalue, rfl⟩
  simp [Record.step, field?_eq_none_iff.mpr hname, hother]

theorem brings_unknown {members : List (String × Json)}
    (hunknown : ∀ member ∈ members, member.1 ∉ knownNames)
    (hread : ∀ member ∈ members, member.2.Rereads depth) :
    Brings depth names names members options { options with
      extra := members.foldl (fun acc (name, value) => Json.insert name value acc)
        options.extra } := by
  intro given hgiven
  refine ⟨given, hgiven, ?_⟩
  induction members generalizing options with
  | nil => rfl
  | cons member rest ih =>
    obtain ⟨name, value⟩ := member
    obtain ⟨hname, hunknown⟩ := List.forall_mem_cons.mp hunknown
    obtain ⟨hvalue, hread⟩ := List.forall_mem_cons.mp hread
    rw [Json.toMemberDocs, List.foldl_cons, step_of_unknown hname hvalue, ih hunknown hread]
    rfl

theorem optional_stages_toDoc (hdepth : 2 < depth) (all : List Stage) :
    Stage.shape.decode.list.optional depth (Json.array (all.map Stage.toJson)).toDoc =
      .ok (some all) := by
  have hitems : List.Forall₂ (fun item stage => Stage.shape.decode (depth - 1) item = .ok stage)
      (Json.toDocs (all.map Stage.toJson)) all := by
    rw [Json.toDocs_eq_map, List.map_map, List.forall₂_map_left_iff]
    exact List.forall₂_same.mpr fun stage _ =>
      Stage.decode_toDoc (Nat.lt_sub_of_add_lt hdepth) stage
  exact (Decoder.optional_eq_ok_iff rfl).mpr ⟨all, Decoder.list_array_eq_ok_iff.mpr
    ⟨depth - 1, Json.enter_eq_ok 0 (Nat.lt_of_succ_lt hdepth), rfl, hitems⟩, rfl⟩

theorem IsRead.brings (h : options.IsRead depth) (hdepth : 2 < depth) :
    Brings depth [] knownNames.reverse (options.known ++ options.extra) .none options := by
  obtain ⟨vus, duration, iterations, stages, thresholds, extra⟩ := options
  have hvus : Brings depth [] ["vus"] _ .none ⟨vus, .none, .none, .none, .none, []⟩ :=
    brings_known "vus" (fun vus options => { options with vus }) (fun n => .number (.natural n))
      rfl (fun _ _ => rfl) rfl (by decide)
  have hduration : Brings depth _ ["duration", "vus"] _ ⟨vus, .none, .none, .none, .none, []⟩
      ⟨vus, duration, .none, .none, .none, []⟩ :=
    brings_known "duration" (fun duration options => { options with duration }) .string
      rfl (fun _ _ => rfl) rfl (by decide)
  have hiterations : Brings depth _ ["iterations", "duration", "vus"] _
      ⟨vus, duration, .none, .none, .none, []⟩ ⟨vus, duration, iterations, .none, .none, []⟩ :=
    brings_known "iterations" (fun iterations options => { options with iterations })
      (fun n => .number (.natural n)) rfl (fun _ _ => rfl) rfl (by decide)
  have hstages : Brings depth _ ["stages", "iterations", "duration", "vus"] _
      ⟨vus, duration, iterations, .none, .none, []⟩
      ⟨vus, duration, iterations, stages, .none, []⟩ :=
    brings_known "stages" (fun stages options => { options with stages })
      (fun all => .array (all.map Stage.toJson)) rfl
      (fun all _ => optional_stages_toDoc hdepth all) rfl (by decide)
  have hthresholds : Brings depth _ knownNames.reverse _
      ⟨vus, duration, iterations, stages, .none, []⟩
      ⟨vus, duration, iterations, stages, thresholds, []⟩ :=
    brings_known "thresholds" (fun thresholds options => { options with thresholds }) .object rfl
      (fun all hall => (Decoder.optional_eq_ok_iff rfl).mpr
        ⟨all, Decoder.members_eq_ok_iff.mpr (h.thresholds all hall), rfl⟩) rfl (by decide)
  have hextra : Brings depth _ knownNames.reverse extra
      ⟨vus, duration, iterations, stages, thresholds, []⟩
      ⟨vus, duration, iterations, stages, thresholds, Json.ofMembers extra⟩ :=
    brings_unknown h.unknown h.extra
  rw [Json.ofMembers_of_nodup h.keys] at hextra
  exact ((((hvus.append hduration).append hiterations).append hstages).append hthresholds).append
    hextra

theorem IsRead.decode_toDoc {more : Nat} (h : options.IsRead depth) (hdepth : depth < more)
    (hmore : 3 < more) : shape.decode more options.toJson.toDoc = .ok options := by
  have hlevels : depth ≤ more - 1 := Nat.le_sub_one_of_lt hdepth
  -- Inside the object there is one level less, which the values and the stages can do without.
  obtain ⟨given, -, hfold⟩ := (h.of_le hlevels).brings (by omega) ∅ (by simp)
  rw [h.toJson_eq]
  exact (shape.decode_object_eq_ok_iff more).mpr ⟨more - 1, given,
    Json.enter_eq_ok 0 (Nat.lt_of_le_of_lt (by decide) hmore), hfold, by
    simp [Record.IsComplete, shape, Field.named], rfl⟩

end Rereading

end ExecutionOptions

namespace Flow

open ExecutionOptions (Passes knownMembers otherMembers)

variable {text : String} {flow : Flow} {start : Nat} {members : List (Key × Doc)}
  {ending : Json.Ending}

theorem decode_options_of_ofText (hok : Flow.ofText text = .ok flow) {doc : Doc}
    (hgiven : doc ∈ (Doc.ofText text).1.givenAs ["options"] 1) :
    ExecutionOptions.shape.decode (Depth.full - 1) doc = .ok flow.options := by
  unfold Flow.ofText at hok
  split at hok
  · contradiction
  · next draft hdraft =>
    have hdecode := (Json.decodeText_eq_ok_iff.mp hdraft).1
    have hsets := FlowDraft.isPlain.sets_named 1 FlowDraft.options rfl (fun _ _ => rfl)
      (by simp [FlowDraft.shape, Field.leaves_named, Field.leaves_needed])
    rw [← (FlowDraft.validate_eq_ok_iff.mp hok).1.options]
    exact (hsets.get_of_decode hdecode).2 doc hgiven

/-- Options with distinct keys are passed on: the known ones that are given and not null in their
own order, then all others as they were given. What is passed on is read as the same options. -/
theorem options_pass_through (hok : Flow.ofText text = .ok flow)
    (hgiven : .object start members ending ∈ (Doc.ofText text).1.givenAs ["options"] 1)
    (hdistinct : (members.map (·.1.name)).Nodup) :
    ∃ known others : List (String × Json),
      (optionsSection flow).body = [.exportConst "options" (.json (.object (known ++ others)))] ∧
      List.Forall₂ Passes (knownMembers members) known ∧
      List.Forall₂ Passes (otherMembers members) others ∧
      ∀ depth, Depth.full ≤ depth →
        ExecutionOptions.shape.decode depth (Json.object (known ++ others)).toDoc =
          .ok flow.options := by
  have hdecode := decode_options_of_ofText hok hgiven
  have hdepth : Depth.full - 1 ≤ Depth.full := Nat.sub_le Depth.full 1
  have hread := ExecutionOptions.isRead_of_decode hdecode
  refine ⟨flow.options.known, flow.options.extra, ?_,
    ExecutionOptions.forall₂_knownMembers hdepth hdecode hdistinct,
    ExecutionOptions.forall₂_otherMembers hdepth hdecode hdistinct, fun depth hfull => ?_⟩
  · rw [optionsSection, hread.toJson_eq]
  · have hlevels : Depth.full - 1 - 1 < depth := Nat.lt_of_lt_of_le (by decide) hfull
    rw [← hread.toJson_eq]
    exact hread.decode_toDoc hlevels (Nat.lt_of_lt_of_le (by decide) hfull)

def stagedText : String :=
  "\x7b\"kind\":\"load_testing\",\"options\":\x7b\"x\":null,\"stages\":[[\"1s\",3]]\x7d\x7d"

def stagedMembers : List (Key × Doc) :=
  [(⟨.ok "x", 37⟩, .null 38 42),
    (⟨.ok "stages", 51⟩, .array 52
      [.array 53 [.string 54 (.ok "1s") 58, .number 59 (.ok (.natural 3)) 60] (.closed 61)]
      (.closed 62))]

theorem ofText_stagedText : Doc.ofText stagedText =
    (.object 0
      [(⟨.ok "kind", 7⟩, .string 8 (.ok "load_testing") 22),
        (⟨.ok "options", 32⟩, .object 33 stagedMembers (.closed 63))] (.closed 64),
      some ⟨64, []⟩) := by
  simp only [Doc.ofText_eq, stagedText, String.reduceToList]
  rfl

def stagedFlow : Flow where
  options := { ExecutionOptions.none with stages := some [⟨"1s", 3⟩], extra := [("x", .null)] }
  precondition := []
  postcondition := []
  items := []

theorem staged_options_pass_through :
    Flow.ofText stagedText = .ok stagedFlow ∧
    Doc.object 33 stagedMembers (.closed 63) ∈
      (Doc.ofText stagedText).1.givenAs ["options"] 1 ∧
    (stagedMembers.map (·.1.name)).Nodup ∧
    ∃ known others : List (String × Json),
      (optionsSection stagedFlow).body =
        [.exportConst "options" (.json (.object (known ++ others)))] ∧
      List.Forall₂ Passes (knownMembers stagedMembers) known ∧
      List.Forall₂ Passes (otherMembers stagedMembers) others ∧
      ∀ depth, Depth.full ≤ depth →
        ExecutionOptions.shape.decode depth (Json.object (known ++ others)).toDoc =
          .ok stagedFlow.options := by
  have hok : Flow.ofText stagedText = .ok stagedFlow := by
    have hdraft : FlowDraft.ofText stagedText =
        .ok ⟨"load_testing", stagedFlow.options, [], [], []⟩ := by
      refine Json.decodeText_eq_ok_iff.mpr ?_
      rw [ofText_stagedText]
      exact ⟨rfl, by simp⟩
    rw [Flow.ofText, hdraft]
    rfl
  have hgiven : Doc.object 33 stagedMembers (.closed 63) ∈
      (Doc.ofText stagedText).1.givenAs ["options"] 1 := by
    rw [ofText_stagedText]
    exact Doc.mem_givenIn.mpr ⟨_, List.mem_of_getElem? (i := 1) rfl, rfl⟩
  have hdistinct : (stagedMembers.map (·.1.name)).Nodup := by
    simp [stagedMembers]
  exact ⟨hok, hgiven, hdistinct, options_pass_through hok hgiven hdistinct⟩

end Flow

end FlowScript
