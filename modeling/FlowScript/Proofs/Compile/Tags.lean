import FlowScript.Proofs.Compile.CallShape
import FlowScript.Proofs.Compile.ResultName
import Mathlib.Logic.Function.Basic

/-! The tags of a request as the runtime reads them. All tags go into one object under the same two
keys, so each key holds what was written under it last. -/

namespace FlowScript

/-- What an object literal holds under each key. A later entry takes the place of an earlier one. -/
def readObject (entries : List (String × Expr)) : String → Option Expr :=
  entries.foldl (fun held entry => Function.update held entry.1 (some entry.2)) fun _ => none

theorem readObject_append_singleton (entries : List (String × Expr)) (key : String) (value : Expr) :
    readObject (entries ++ [(key, value)]) =
      Function.update (readObject entries) key (some value) := by
  simp [readObject]

theorem Expr.text_injective : Function.Injective Expr.text := by
  intro s t h
  have hcode := congrArg (Template.codeText "") (Expr.str.inj h)
  rwa [Template.codeText_literal, Template.codeText_literal] at hcode

namespace Request

section ReadTags

def lastName (tags : List Tag) : Option String :=
  tags.getLast?.map (·.name)

def lastStage (tags : List Tag) : Option String :=
  (tags.filterMap (·.stage)).getLast?

theorem readObject_tags (tags : List Tag) :
    readObject (tags.flatMap tagEntries) = fun key =>
      if key = "name" then (lastName tags).map .text
      else if key = "stage" then (lastStage tags).map .text
      else none := by
  induction tags using List.reverseRecOn with
  | nil =>
    funext key
    simp [readObject, lastName, lastStage]
  | append_singleton tags tag ih =>
    have hname : readObject (tags.flatMap tagEntries ++ [("name", .text tag.name)]) = fun key =>
        if key = "name" then (lastName (tags ++ [tag])).map .text
        else if key = "stage" then (lastStage tags).map .text
        else none := by
      rw [readObject_append_singleton, ih]
      funext key
      by_cases hkey : key = "name"
      · simp [hkey, lastName]
      · simp [hkey]
    rw [List.flatMap_append, List.flatMap_singleton, tagEntries]
    cases hstage : tag.stage with
    | none =>
      have hkept : lastStage (tags ++ [tag]) = lastStage tags := by simp [lastStage, hstage]
      rw [hkept]
      exact hname
    | some stage =>
      have hlast : lastStage (tags ++ [tag]) = some stage := by simp [lastStage, hstage]
      have hsplit : tags.flatMap tagEntries ++
          ("name", .text tag.name) :: (some ("stage", Expr.text stage)).toList =
          tags.flatMap tagEntries ++ [("name", .text tag.name)] ++ [("stage", .text stage)] := by
        simp
      rw [Option.map_some, hsplit, readObject_append_singleton, hname, hlast]
      funext key
      by_cases hkey : key = "stage"
      · simp [hkey]
      · simp [hkey]

end ReadTags

/-- Under the keys of an object, every tag is still there by its name, and every stage together with
the name of the tag that declares it. -/
structure KeepsTags (entries : List (String × Expr)) (tags : List Tag) : Prop where
  names : ∀ tag ∈ tags, ∃ key, readObject entries key = some (.text tag.name)
  stages : ∀ tag ∈ tags, ∀ stage ∈ tag.stage,
    readObject entries "name" = some (.text tag.name) ∧
      readObject entries "stage" = some (.text stage)

theorem map_text_eq_some_iff {held : Option String} {s : String} :
    held.map Expr.text = some (.text s) ↔ held = some s := by
  rw [Option.map_eq_some_iff]
  constructor
  · rintro ⟨t, rfl, htext⟩
    rw [Expr.text_injective htext]
  · rintro rfl
    exact ⟨s, rfl, rfl⟩

theorem exists_readObject_tags_iff {tags : List Tag} {s : String} :
    (∃ key, readObject (tags.flatMap tagEntries) key = some (.text s)) ↔
      lastName tags = some s ∨ lastStage tags = some s := by
  rw [readObject_tags]
  constructor
  · rintro ⟨key, hkey⟩
    dsimp only at hkey
    split at hkey
    · exact .inl (map_text_eq_some_iff.mp hkey)
    · split at hkey
      · exact .inr (map_text_eq_some_iff.mp hkey)
      · cases hkey
  · rintro (hname | hstage)
    · exact ⟨"name", by simp [hname]⟩
    · exact ⟨"stage", by simp [hstage]⟩

theorem keepsTags_iff (tags : List Tag) :
    KeepsTags (tags.flatMap tagEntries) tags ↔
      ∀ tag ∈ tags, (lastName tags = some tag.name ∨ lastStage tags = some tag.name) ∧
        ∀ stage ∈ tag.stage, lastName tags = some tag.name ∧ lastStage tags = some stage := by
  have hstages (name stage : String) :
      (readObject (tags.flatMap tagEntries) "name" = some (.text name) ∧
        readObject (tags.flatMap tagEntries) "stage" = some (.text stage)) ↔
        lastName tags = some name ∧ lastStage tags = some stage := by
    rw [readObject_tags, ← map_text_eq_some_iff, ← map_text_eq_some_iff]
    rfl
  constructor
  · intro hkeeps tag htag
    refine ⟨exists_readObject_tags_iff.mp (hkeeps.names tag htag), fun stage hstage => ?_⟩
    exact (hstages _ _).mp (hkeeps.stages tag htag stage hstage)
  · intro hlast
    refine ⟨fun tag htag => ?_, fun tag htag stage hstage => ?_⟩
    · exact exists_readObject_tags_iff.mpr (hlast tag htag).1
    · exact (hstages _ _).mpr ((hlast tag htag).2 stage hstage)

theorem keepsTags_singleton (tag : Tag) : KeepsTags ([tag].flatMap tagEntries) [tag] := by
  rw [keepsTags_iff]
  intro other hother
  obtain rfl := List.mem_singleton.mp hother
  refine ⟨.inl rfl, fun stage hstage => ⟨rfl, ?_⟩⟩
  simp [lastStage, Option.mem_def.mp hstage]

theorem suffix_argumentList (hasBody : Bool) (positional : Option Expr) (params : List Expr) :
    params <:+ argumentList hasBody positional params := by
  unfold argumentList
  cases hasBody with
  | false => exact List.suffix_rfl
  | true =>
    cases positional with
    | some body => exact List.suffix_cons body params
    | none =>
      cases params with
      | nil => exact List.suffix_rfl
      | cons param rest => exact List.suffix_cons _ _

/-- The tags are one object among the parameters, which are the last argument of the call. It holds
the name of the last tag and the last stage, and it keeps the tags exactly if each of them is called
what it holds, and each stage is the last one and declared under the last name. -/
theorem keepsTags_iff_last (request : Request) :
    objectArgument request.sentEntries <:+ request.arguments ∧
    ∃ entries, (∀ value, ("tags", value) ∈ request.sentEntries ↔
        request.tags ≠ [] ∧ value = .object entries) ∧
      readObject entries "name" = (lastName request.tags).map .text ∧
      readObject entries "stage" = (lastStage request.tags).map .text ∧
      (∀ key, key ≠ "name" → key ≠ "stage" → readObject entries key = none) ∧
      (KeepsTags entries request.tags ↔ ∀ tag ∈ request.tags,
        (lastName request.tags = some tag.name ∨ lastStage request.tags = some tag.name) ∧
        ∀ stage ∈ tag.stage,
          lastName request.tags = some tag.name ∧ lastStage request.tags = some stage) := by
  refine ⟨suffix_argumentList _ _ _, request.tags.flatMap tagEntries, fun value => ?_, ?_, ?_,
    fun key hname hstage => ?_, keepsTags_iff request.tags⟩
  · rw [mem_sentEntries_iff]
    constructor
    · intro hsends
      generalize hkey : "tags" = key at hsends
      cases hsends with
      | tags hne => exact ⟨hne, rfl⟩
      | _ => exact absurd hkey (by decide)
    · rintro ⟨hne, rfl⟩
      exact .tags hne
  · rw [readObject_tags]
    rfl
  · rw [readObject_tags]
    rfl
  · rw [readObject_tags]
    simp [hname, hstage]

def twoTagsRequest : Request where
  endpoint := "/b"
  method := .get
  auth := none
  headers := []
  cookies := []
  params := []
  query := []
  body := none
  tags := [⟨"login", none⟩, ⟨"smoke", none⟩]
  timeout := none

theorem not_keepsTags_twoTagsRequest :
    ∃ entries, ("tags", .object entries) ∈ twoTagsRequest.sentEntries ∧
      readObject entries "name" = some (.text "smoke") ∧
      ¬KeepsTags entries twoTagsRequest.tags := by
  refine ⟨_, mem_sentEntries_iff.mpr (.tags (List.cons_ne_nil _ _)), ?_, fun hkeeps => ?_⟩
  · rw [readObject_tags]
    rfl
  · have hlogin := ((keepsTags_iff _).mp hkeeps ⟨"login", none⟩ List.mem_cons_self).1
    exact absurd hlogin (by decide)

end Request

end FlowScript
