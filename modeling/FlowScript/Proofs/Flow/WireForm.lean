import FlowScript.Flow.Draft
import FlowScript.Proofs.Json.Fits

/-! The liberties of a descriptor. Each record has its own names for its fields, and one word may
name different fields in different records: `type` is the kind of a step, but the type of the value
in the data of an authorization. -/

namespace FlowScript

open Json (Doc Field Form FieldForm Record)
open Json.Form (fits_plain fits_strict fits_string fits_json fits_optional_string
  fits_optional_float fits_optional_members)
open Json.Decoder (ignoresPlaces_string ignoresPlaces_natural ignoresPlaces_members)

section Forms

def Pair.form : Form :=
  .record [⟨["key"], .plain⟩, ⟨["value"], .plain⟩]

def AuthDatum.form : Form :=
  .record [⟨["key"], .plain⟩, ⟨["value"], .plain⟩, ⟨["type"], .plain⟩]

def AuthDraft.form : Form :=
  .record [⟨["kind", "type"], .plain⟩, ⟨["data"], .list AuthDatum.form⟩]

def Tag.form : Form :=
  .record [⟨["name"], .plain⟩, ⟨["stage"], .plain⟩]

def RequestDraft.form : Form :=
  .record [⟨["endpoint"], .plain⟩, ⟨["method"], .plain⟩, ⟨["auth"], .optional AuthDraft.form⟩,
    ⟨["headers"], .list Pair.form⟩, ⟨["cookies"], .list Pair.form⟩, ⟨["params"], .list Pair.form⟩,
    ⟨["query"], .list Pair.form⟩, ⟨["body"], .plain⟩, ⟨["tags"], .list Tag.form⟩,
    ⟨["timeout", "timeoutSeconds"], .plain⟩]

def ValidationRule.form : Form :=
  .record [⟨["ref"], .plain⟩, ⟨["rule"], .plain⟩]

def Check.form : Form :=
  .record [⟨["name"], .plain⟩, ⟨["path"], .plain⟩, ⟨["value"], .plain⟩]

def ResponseDraft.form : Form :=
  .record [⟨["kind", "type"], .plain⟩, ⟨["validate"], .list ValidationRule.form⟩,
    ⟨["check"], .list Check.form⟩]

def AssignmentDraft.form : Form :=
  .record [⟨["name"], .plain⟩, ⟨["from"], .plain⟩, ⟨["path", "ref"], .plain⟩]

def StepDraft.form : Form :=
  .record [⟨["kind", "type"], .plain⟩, ⟨["sleep_seconds", "sleepSeconds", "sleep"], .plain⟩,
    ⟨["set_variable", "setVariable"], .list AssignmentDraft.form⟩,
    ⟨["request"], .optional RequestDraft.form⟩, ⟨["response"], .optional ResponseDraft.form⟩]

def GroupDraft.form : Form :=
  .record [⟨["name"], .plain⟩, ⟨["steps"], .list StepDraft.form⟩]

def Stage.form : Form :=
  .record [⟨["duration"], .plain⟩, ⟨["target"], .plain⟩]

/-- All members of the options are read, so that none is extra, and their order is kept. -/
def ExecutionOptions.form : Form :=
  .strict <| .record [⟨["vus"], .plain⟩, ⟨["duration"], .plain⟩, ⟨["iterations"], .plain⟩,
    ⟨["stages"], .optional (.list Stage.form)⟩, ⟨["thresholds"], .plain⟩]

def FlowDraft.form : Form :=
  .record [⟨["kind", "type"], .plain⟩, ⟨["options"], ExecutionOptions.form⟩,
    ⟨["precondition"], .list StepDraft.form⟩, ⟨["postcondition"], .list StepDraft.form⟩,
    ⟨["items"], .list GroupDraft.form⟩]

end Forms

section Fitting

theorem Pair.fits : Pair.form.Fits Pair.shape.decode :=
  Record.HasFields.fits_record
    { fits := .cons (fits_string.named _ _) <| .cons (fits_json.named _ _) .nil
      distinct := by decide }
    (Record.skipsOthers_of_default rfl) (by simp [Pair.shape, Field.commutes_named])

theorem AuthDatum.fits : AuthDatum.form.Fits AuthDatum.shape.decode :=
  Record.HasFields.fits_record
    { fits := .cons (fits_string.named _ _) <| .cons (fits_json.named _ _) <|
        .cons (fits_optional_string.named _ _) .nil
      distinct := by decide }
    (Record.skipsOthers_of_default rfl) (by simp [AuthDatum.shape, Field.commutes_named])

theorem AuthDraft.fits : AuthDraft.form.Fits AuthDraft.shape.decode :=
  Record.HasFields.fits_record
    { fits := .cons (fits_string.named _ _) <| .cons (AuthDatum.fits.list.named _ _) .nil
      distinct := by decide }
    (Record.skipsOthers_of_default rfl) (by simp [AuthDraft.shape, Field.commutes_named])

theorem Tag.fits : Tag.form.Fits Tag.shape.decode :=
  Record.HasFields.fits_record
    { fits := .cons (fits_string.named _ _) <| .cons (fits_optional_string.named _ _) .nil
      distinct := by decide }
    (Record.skipsOthers_of_default rfl) (by simp [Tag.shape, Field.commutes_named])

theorem RequestDraft.fits : RequestDraft.form.Fits RequestDraft.shape.decode :=
  Record.HasFields.fits_record
    { fits := .cons (fits_string.named _ _) <| .cons (fits_string.named _ _) <|
        .cons (AuthDraft.fits.optional.named _ _) <| .cons (Pair.fits.list.named _ _) <|
        .cons (Pair.fits.list.named _ _) <| .cons (Pair.fits.list.named _ _) <|
        .cons (Pair.fits.list.named _ _) <| .cons (fits_optional_members.named _ _) <|
        .cons (Tag.fits.list.named _ _) <| .cons (fits_optional_float.named _ _) .nil
      distinct := by decide }
    (Record.skipsOthers_of_default rfl) (by simp [RequestDraft.shape, Field.commutes_named])

theorem ValidationRule.fits : ValidationRule.form.Fits ValidationRule.shape.decode :=
  Record.HasFields.fits_record
    { fits := .cons (fits_string.named _ _) <| .cons (fits_string.named _ _) .nil
      distinct := by decide }
    (Record.skipsOthers_of_default rfl) (by simp [ValidationRule.shape, Field.commutes_named])

theorem Check.fits : Check.form.Fits Check.shape.decode :=
  Record.HasFields.fits_record
    { fits := .cons (fits_optional_string.named _ _) <| .cons (fits_optional_string.named _ _) <|
        .cons (fits_json.named _ _) .nil
      distinct := by decide }
    (Record.skipsOthers_of_default rfl) (by simp [Check.shape, Field.commutes_named])

theorem ResponseDraft.fits : ResponseDraft.form.Fits ResponseDraft.shape.decode :=
  Record.HasFields.fits_record
    { fits := .cons (fits_string.named _ _) <| .cons (ValidationRule.fits.list.named _ _) <|
        .cons (Check.fits.list.named _ _) .nil
      distinct := by decide }
    (Record.skipsOthers_of_default rfl) (by simp [ResponseDraft.shape, Field.commutes_named])

theorem AssignmentDraft.fits : AssignmentDraft.form.Fits AssignmentDraft.shape.decode :=
  Record.HasFields.fits_record
    { fits := .cons (fits_string.named _ _) <| .cons (fits_string.named _ _) <|
        .cons (fits_string.named _ _) .nil
      distinct := by decide }
    (Record.skipsOthers_of_default rfl) (by simp [AssignmentDraft.shape, Field.commutes_named])

theorem StepDraft.fits : StepDraft.form.Fits StepDraft.shape.decode :=
  Record.HasFields.fits_record
    { fits := .cons (fits_string.named _ _) <| .cons (fits_optional_float.named _ _) <|
        .cons (AssignmentDraft.fits.list.named _ _) <|
        .cons (RequestDraft.fits.optional.named _ _) <|
        .cons (ResponseDraft.fits.optional.named _ _) .nil
      distinct := by decide }
    (Record.skipsOthers_of_default rfl) (by simp [StepDraft.shape, Field.commutes_named])

theorem GroupDraft.fits : GroupDraft.form.Fits GroupDraft.shape.decode :=
  Record.HasFields.fits_record
    { fits := .cons (fits_optional_string.named _ _) <|
        .cons (StepDraft.fits.list.named _ _) .nil
      distinct := by decide }
    (Record.skipsOthers_of_default rfl) (by simp [GroupDraft.shape, Field.commutes_named])

theorem Stage.ignoresPlaces : Stage.shape.IgnoresPlaces where
  field := by
    simp only [Stage.shape, List.forall_mem_cons, List.not_mem_nil, false_implies, implies_true,
      and_true]
    exact ⟨Field.ignoresPlaces_needed ignoresPlaces_string,
      Field.ignoresPlaces_needed ignoresPlaces_natural⟩
  other name depth doc stage := by simp [Stage.shape, Doc.toOption_skip_bare]

theorem ExecutionOptions.ignoresPlaces : ExecutionOptions.shape.IgnoresPlaces where
  field := by
    simp only [ExecutionOptions.shape, List.forall_mem_cons, List.not_mem_nil, false_implies,
      implies_true, and_true]
    exact ⟨Field.ignoresPlaces_named ignoresPlaces_natural.optional,
      Field.ignoresPlaces_named ignoresPlaces_string.optional,
      Field.ignoresPlaces_named ignoresPlaces_natural.optional,
      Field.ignoresPlaces_named Stage.ignoresPlaces.decode.list.optional,
      Field.ignoresPlaces_named ignoresPlaces_members.optional⟩
  other name depth doc options := by
    simp [ExecutionOptions.shape, Doc.toOption_toJson_bare depth doc]

theorem Stage.fits : Stage.form.Fits Stage.shape.decode :=
  Record.HasFields.fits_record
    { fits := .cons (fits_string.needed _ _) <|
        .cons ((fits_plain ignoresPlaces_natural).needed _ _) .nil
      distinct := by decide }
    (Record.skipsOthers_of_default rfl)
    (by simp [Stage.shape, Field.needed_commutes_iff, Field.commutes_needed_iff,
      Field.commutes_named])

theorem ExecutionOptions.hasFields : ExecutionOptions.shape.HasFields [⟨["vus"], .plain⟩,
    ⟨["duration"], .plain⟩, ⟨["iterations"], .plain⟩, ⟨["stages"], .optional (.list Stage.form)⟩,
    ⟨["thresholds"], .plain⟩] where
  fits := .cons ((fits_plain ignoresPlaces_natural.optional).named _ _) <|
    .cons (fits_optional_string.named _ _) <|
    .cons ((fits_plain ignoresPlaces_natural.optional).named _ _) <|
    .cons (Stage.fits.list.optional.named _ _) <| .cons (fits_optional_members.named _ _) .nil
  distinct := by decide

theorem ExecutionOptions.fits : ExecutionOptions.form.Fits ExecutionOptions.shape.decode :=
  fits_strict ExecutionOptions.ignoresPlaces.decode ExecutionOptions.hasFields.repeated

theorem FlowDraft.fits : FlowDraft.form.Fits FlowDraft.shape.decode :=
  Record.HasFields.fits_record
    { fits := .cons (fits_string.needed _ _) <| .cons (ExecutionOptions.fits.named _ _) <|
        .cons (StepDraft.fits.list.named _ _) <| .cons (StepDraft.fits.list.named _ _) <|
        .cons (GroupDraft.fits.list.named _ _) .nil
      distinct := by decide }
    (Record.skipsOthers_of_default rfl)
    (by simp [FlowDraft.shape, Field.needed_commutes_iff, Field.commutes_named])

end Fitting

/-- A descriptor that is written in another way gives the same draft, and no descriptor is read in
which a record gives one of its fields twice. -/
theorem FlowDraft.ofText_liberties :
    (∀ text text' draft, FlowDraft.ofText text = .ok draft →
      FlowDraft.form.Respells (Doc.ofText text).1 (Doc.ofText text').1 → Doc.IsText text' →
      FlowDraft.ofText text' = .ok draft) ∧
    ∀ text, FlowDraft.form.Repeats (Doc.ofText text).1 →
      ∃ fault, FlowDraft.ofText text = .error fault :=
  ⟨fun _ _ _ hok hrespells htext => FlowDraft.fits.decodeText_respelled hok hrespells htext,
    fun _ hrepeats => FlowDraft.fits.decodeText_repeated hrepeats⟩

section Binding

def bindingText : String :=
  "\x7b\"kind\":\"load\",\"precondition\":[\x7b\"set_variable\":[\x7b\"path\":\"a\"\x7d]\x7d]\x7d"

def bindingDoc : Doc :=
  .object 0
    [(⟨.ok "kind", 7⟩, .string 8 (.ok "load") 14),
      (⟨.ok "precondition", 29⟩, .array 30
        [.object 31
          [(⟨.ok "set_variable", 46⟩, .array 47
            [.object 48 [(⟨.ok "path", 55⟩, .string 56 (.ok "a") 59)] (.closed 60)] (.closed 61))]
          (.closed 62)] (.closed 63))] (.closed 64)

def freeBindingText : String :=
  "\x7b\"precondition\":[\x7b\"x\":null,\"setVariable\":[\x7b\"ref\":\"a\"\x7d]\x7d],\"type\":\"load\"\x7d"

def freeBindingDoc : Doc :=
  .object 0
    [(⟨.ok "precondition", 15⟩, .array 16
        [.object 17
          [(⟨.ok "x", 21⟩, .null 22 26),
            (⟨.ok "setVariable", 40⟩, .array 41
              [.object 42 [(⟨.ok "ref", 48⟩, .string 49 (.ok "a") 52)] (.closed 53)] (.closed 54))]
          (.closed 55)] (.closed 56)),
      (⟨.ok "type", 63⟩, .string 64 (.ok "load") 70)] (.closed 71)

def twoKindsText : String :=
  "\x7b\"kind\":\"load\",\"items\":[\x7b\"steps\":[\x7b\"kind\":\"api\",\"type\":\"delay\"\x7d]\x7d]\x7d"

def twoKindsDoc : Doc :=
  .object 0
    [(⟨.ok "kind", 7⟩, .string 8 (.ok "load") 14),
      (⟨.ok "items", 22⟩, .array 23
        [.object 24
          [(⟨.ok "steps", 32⟩, .array 33
            [.object 34
              [(⟨.ok "kind", 41⟩, .string 42 (.ok "api") 47),
                (⟨.ok "type", 54⟩, .string 55 (.ok "delay") 62)] (.closed 63)] (.closed 64))]
          (.closed 65)] (.closed 66))] (.closed 67)

theorem ofText_bindingText : Doc.ofText bindingText = (bindingDoc, some ⟨64, []⟩) := by
  simp only [Doc.ofText_eq, bindingText, String.reduceToList]
  rfl

theorem ofText_freeBindingText : Doc.ofText freeBindingText = (freeBindingDoc, some ⟨71, []⟩) := by
  simp only [Doc.ofText_eq, freeBindingText, String.reduceToList]
  rfl

theorem ofText_twoKindsText : Doc.ofText twoKindsText = (twoKindsDoc, some ⟨67, []⟩) := by
  simp only [Doc.ofText_eq, twoKindsText, String.reduceToList]
  rfl

theorem respells_bindingDoc : FlowDraft.form.Respells bindingDoc freeBindingDoc := by
  have hassignment : AssignmentDraft.form.Respells
      (.object 48 [(⟨.ok "path", 55⟩, .string 56 (.ok "a") 59)] (.closed 60))
      (.object 42 [(⟨.ok "ref", 48⟩, .string 49 (.ok "a") 52)] (.closed 53)) := by
    refine @Form.RespellsRecord.object _ _ _ _ [_] [] _ _ _ (.cons ?_ .nil) (by simp) (.refl _)
    exact .field (List.mem_of_getElem? (i := 2) rfl) ⟨"path", by simp, rfl⟩
      ⟨"ref", by simp, rfl⟩ rfl
  have hstep : StepDraft.form.Respells
      (.object 31
        [(⟨.ok "set_variable", 46⟩, .array 47
          [.object 48 [(⟨.ok "path", 55⟩, .string 56 (.ok "a") 59)] (.closed 60)] (.closed 61))]
        (.closed 62))
      (.object 17
        [(⟨.ok "x", 21⟩, .null 22 26),
          (⟨.ok "setVariable", 40⟩, .array 41
            [.object 42 [(⟨.ok "ref", 48⟩, .string 49 (.ok "a") 52)] (.closed 53)] (.closed 54))]
        (.closed 55)) := by
    refine @Form.RespellsRecord.object _ _ _ _ [_] [(⟨.ok "x", 21⟩, .null 22 26)] _ _ _
      (.cons ?_ .nil) (by simp [Form.IsExtra, FieldForm.Spells]) (.swap _ _ _)
    exact .field (List.mem_of_getElem? (i := 2) rfl) ⟨"set_variable", by simp, rfl⟩
      ⟨"setVariable", by simp, rfl⟩ (.array (.cons hassignment .nil))
  refine @Form.RespellsRecord.object _ _ _ _ [_, _] [] _ _ _ (.cons ?_ (.cons ?_ .nil)) (by simp)
    (.swap _ _ _)
  · exact .field List.mem_cons_self ⟨"kind", by simp, rfl⟩ ⟨"type", by simp, rfl⟩ rfl
  · exact .field (List.mem_of_getElem? (i := 2) rfl) ⟨"precondition", by simp, rfl⟩
      ⟨"precondition", by simp, rfl⟩ (.array (.cons hstep .nil))

theorem repeats_twoKindsDoc : FlowDraft.form.Repeats twoKindsDoc := by
  have hstep : StepDraft.form.Repeats (.object 34
      [(⟨.ok "kind", 41⟩, .string 42 (.ok "api") 47),
        (⟨.ok "type", 54⟩, .string 55 (.ok "delay") 62)] (.closed 63)) :=
    .twice List.mem_cons_self ⟨"kind", by simp⟩ ⟨"type", by simp⟩ (.refl _)
  have hgroup : GroupDraft.form.Repeats (.object 24
      [(⟨.ok "steps", 32⟩, .array 33
        [.object 34
          [(⟨.ok "kind", 41⟩, .string 42 (.ok "api") 47),
            (⟨.ok "type", 54⟩, .string 55 (.ok "delay") 62)] (.closed 63)] (.closed 64))]
      (.closed 65)) :=
    .member (List.mem_of_getElem? (i := 1) rfl) ⟨"steps", by simp, rfl⟩ (List.mem_singleton_self _)
      (.item (List.mem_singleton_self _) hstep)
  exact .member (List.mem_of_getElem? (i := 4) rfl) ⟨"items", by simp, rfl⟩
    (List.mem_of_getElem? (i := 1) rfl) (.item (List.mem_singleton_self _) hgroup)

theorem FlowDraft.ofText_liberties_binding :
    (FlowDraft.form.Respells (Doc.ofText bindingText).1 (Doc.ofText freeBindingText).1 ∧
      ∃ draft, FlowDraft.ofText bindingText = .ok draft ∧
        FlowDraft.ofText freeBindingText = .ok draft) ∧
    FlowDraft.form.Repeats (Doc.ofText twoKindsText).1 ∧
      ∃ fault, FlowDraft.ofText twoKindsText = .error fault := by
  have hrespells : FlowDraft.form.Respells (Doc.ofText bindingText).1
      (Doc.ofText freeBindingText).1 := by
    rw [ofText_bindingText, ofText_freeBindingText]
    exact respells_bindingDoc
  have hrepeats : FlowDraft.form.Repeats (Doc.ofText twoKindsText).1 := by
    rw [ofText_twoKindsText]
    exact repeats_twoKindsDoc
  have hok : FlowDraft.ofText bindingText = .ok
      ⟨"load", .none, [⟨"", none, [⟨"", "response", "a"⟩], none, none⟩], [], []⟩ := by
    refine Json.decodeText_eq_ok_iff.mpr ?_
    rw [ofText_bindingText]
    exact ⟨rfl, by simp⟩
  have htext : Doc.IsText freeBindingText := ⟨⟨71, []⟩, by rw [ofText_freeBindingText], rfl⟩
  exact ⟨⟨hrespells, _, hok, FlowDraft.ofText_liberties.1 _ _ _ hok hrespells htext⟩,
    hrepeats, FlowDraft.ofText_liberties.2 _ hrepeats⟩

end Binding

end FlowScript
