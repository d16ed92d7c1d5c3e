import FlowScript.Flow.Draft
import FlowScript.Proofs.Json.Agreement

/-! What a descriptor needs in order to be read: the kind of the flow, and the duration and the
target of each stage. Everything else may be left out. -/

namespace FlowScript

open Json (Doc Field Record)
open Json.Decoder (survives_string survives_natural survives_float survives_json survives_members)

def onlyIn (field : String) (condition : Doc → Prop) (name : String) (doc : Doc) : Prop :=
  name = field → condition doc

theorem onlyIn_of_ne {field name : String} {condition : Doc → Prop} (hname : name ≠ field)
    (doc : Doc) : True ↔ onlyIn field condition name doc :=
  ⟨fun _ h => absurd h hname, fun _ => trivial⟩

theorem onlyIn_self {field : String} {condition : Doc → Prop} (doc : Doc) :
    condition doc ↔ onlyIn field condition field doc :=
  ⟨fun h _ => h, fun h => h rfl⟩

def neededNames : List String := ["kind", "duration", "target"]

namespace Stage

def Suffices (doc : Doc) : Prop :=
  doc.givenAs ["duration"] 0 ≠ [] ∧ doc.givenAs ["target"] 1 ≠ []

theorem isPlain : shape.IsPlain := ⟨rfl, by decide⟩

theorem isReducible : shape.IsReducible neededNames fun _ _ => True where
  fields := List.forall_iff_forall_mem.mp ⟨survives_string.needed _ _, survives_natural.needed _ _⟩
  others := Record.othersSurvive_of_default isPlain.other
  required := by decide
  named := by decide
  distinct := isPlain.distinct

theorem suffices_iff {doc : Doc} : shape.Suffices (fun _ _ => True) doc ↔ Suffices doc := by
  simp [Record.suffices_iff, shape, Suffices, Field.needed, Field.named]

theorem survives : shape.decode.Survives neededNames Suffices :=
  isReducible.survives.congr fun _ => suffices_iff

end Stage

namespace ExecutionOptions

def Suffices (doc : Doc) : Prop :=
  ∀ stages ∈ doc.givenAs ["stages"] 3, ∀ stage ∈ stages.items, Stage.Suffices stage

theorem isReducible : shape.IsReducible neededNames
    (onlyIn "stages" fun doc => ∀ stage ∈ doc.items, Stage.Suffices stage) where
  fields := List.forall_iff_forall_mem.mp
    ⟨(survives_natural.optional_all.congr (onlyIn_of_ne (by decide))).named _ _,
      (survives_string.optional_all.congr (onlyIn_of_ne (by decide))).named _ _,
      (survives_natural.optional_all.congr (onlyIn_of_ne (by decide))).named _ _,
      ((Stage.survives.list.optional fun _ _ => List.forall_mem_nil _).congr onlyIn_self).named _ _,
      (survives_members.optional_all.congr (onlyIn_of_ne (by decide))).named _ _⟩
  others := by
    intro name depth doc doc' record next hreduces hwhole hok record'
    obtain ⟨value, hvalue, -⟩ := Json.bind_eq_ok_iff.mp hok
    obtain ⟨value', hvalue'⟩ := Json.exists_toJson_of_reducesTo doc hreduces hwhole hvalue
    exact ⟨_, Json.bind_eq_ok_iff.mpr ⟨value', hvalue', rfl⟩⟩
  required := by decide
  named := by decide
  distinct := by decide

theorem survives : shape.decode.Survives neededNames Suffices :=
  isReducible.survives.congr fun doc => by
    simp [Record.suffices_iff, shape, Suffices, onlyIn, Field.named, Field.name]

end ExecutionOptions

section Drafts

theorem Pair.isPlain : Pair.shape.IsPlain := ⟨rfl, by decide⟩

theorem AuthDatum.isPlain : AuthDatum.shape.IsPlain := ⟨rfl, by decide⟩

theorem AuthDraft.isPlain : AuthDraft.shape.IsPlain := ⟨rfl, by decide⟩

theorem Tag.isPlain : Tag.shape.IsPlain := ⟨rfl, by decide⟩

theorem RequestDraft.isPlain : RequestDraft.shape.IsPlain := ⟨rfl, by decide⟩

theorem ValidationRule.isPlain : ValidationRule.shape.IsPlain := ⟨rfl, by decide⟩

theorem Check.isPlain : Check.shape.IsPlain := ⟨rfl, by decide⟩

theorem ResponseDraft.isPlain : ResponseDraft.shape.IsPlain := ⟨rfl, by decide⟩

theorem AssignmentDraft.isPlain : AssignmentDraft.shape.IsPlain := ⟨rfl, by decide⟩

theorem StepDraft.isPlain : StepDraft.shape.IsPlain := ⟨rfl, by decide⟩

theorem GroupDraft.isPlain : GroupDraft.shape.IsPlain := ⟨rfl, by decide⟩

theorem Pair.survives : Pair.shape.decode.Survives neededNames fun _ => True :=
  Pair.isPlain.survives (by decide) (by decide) ⟨survives_string.named _ _, survives_json.named _ _⟩

theorem AuthDatum.survives : AuthDatum.shape.decode.Survives neededNames fun _ => True :=
  AuthDatum.isPlain.survives (by decide) (by decide) ⟨survives_string.named _ _,
    survives_json.named _ _, survives_string.optional_all.named _ _⟩

theorem AuthDraft.survives : AuthDraft.shape.decode.Survives neededNames fun _ => True :=
  AuthDraft.isPlain.survives (by decide) (by decide) ⟨survives_string.named _ _,
    AuthDatum.survives.list_all.named _ _⟩

theorem Tag.survives : Tag.shape.decode.Survives neededNames fun _ => True :=
  Tag.isPlain.survives (by decide) (by decide) ⟨survives_string.named _ _,
    survives_string.optional_all.named _ _⟩

theorem RequestDraft.survives : RequestDraft.shape.decode.Survives neededNames fun _ => True :=
  RequestDraft.isPlain.survives (by decide) (by decide) ⟨survives_string.named _ _,
    survives_string.named _ _, AuthDraft.survives.optional_all.named _ _,
    Pair.survives.list_all.named _ _, Pair.survives.list_all.named _ _,
    Pair.survives.list_all.named _ _, Pair.survives.list_all.named _ _,
    survives_members.optional_all.named _ _, Tag.survives.list_all.named _ _,
    survives_float.optional_all.named _ _⟩

theorem ValidationRule.survives : ValidationRule.shape.decode.Survives neededNames fun _ => True :=
  ValidationRule.isPlain.survives (by decide) (by decide) ⟨survives_string.named _ _,
    survives_string.named _ _⟩

theorem Check.survives : Check.shape.decode.Survives neededNames fun _ => True :=
  Check.isPlain.survives (by decide) (by decide) ⟨survives_string.optional_all.named _ _,
    survives_string.optional_all.named _ _, survives_json.named _ _⟩

theorem ResponseDraft.survives : ResponseDraft.shape.decode.Survives neededNames fun _ => True :=
  ResponseDraft.isPlain.survives (by decide) (by decide) ⟨survives_string.named _ _,
    ValidationRule.survives.list_all.named _ _, Check.survives.list_all.named _ _⟩

theorem AssignmentDraft.survives :
    AssignmentDraft.shape.decode.Survives neededNames fun _ => True :=
  AssignmentDraft.isPlain.survives (by decide) (by decide) ⟨survives_string.named _ _,
    survives_string.named _ _, survives_string.named _ _⟩

theorem StepDraft.survives : StepDraft.shape.decode.Survives neededNames fun _ => True :=
  StepDraft.isPlain.survives (by decide) (by decide) ⟨survives_string.named _ _,
    survives_float.optional_all.named _ _, AssignmentDraft.survives.list_all.named _ _,
    RequestDraft.survives.optional_all.named _ _, ResponseDraft.survives.optional_all.named _ _⟩

theorem GroupDraft.survives : GroupDraft.shape.decode.Survives neededNames fun _ => True :=
  GroupDraft.isPlain.survives (by decide) (by decide)
    ⟨survives_string.optional_all.named _ _, StepDraft.survives.list_all.named _ _⟩

end Drafts

namespace FlowDraft

def Suffices (doc : Doc) : Prop :=
  doc.givenAs ["kind", "type"] 0 ≠ [] ∧
    ∀ options ∈ doc.givenAs ["options"] 1, ExecutionOptions.Suffices options

theorem isPlain : shape.IsPlain := ⟨rfl, by decide⟩

theorem isReducible :
    shape.IsReducible neededNames (onlyIn "options" ExecutionOptions.Suffices) where
  fields := List.forall_iff_forall_mem.mp
    ⟨(survives_string.congr (onlyIn_of_ne (by decide))).needed _ _,
      (ExecutionOptions.survives.congr onlyIn_self).named _ _,
      (StepDraft.survives.list_all.congr (onlyIn_of_ne (by decide))).named _ _,
      (StepDraft.survives.list_all.congr (onlyIn_of_ne (by decide))).named _ _,
      (GroupDraft.survives.list_all.congr (onlyIn_of_ne (by decide))).named _ _⟩
  others := Record.othersSurvive_of_default isPlain.other
  required := by decide
  named := by decide
  distinct := isPlain.distinct

theorem survives : shape.decode.Survives neededNames Suffices :=
  isReducible.survives.congr fun doc => by
    simp [Record.suffices_iff, shape, Suffices, onlyIn, Field.named, Field.needed, Field.name]

end FlowDraft

end FlowScript
