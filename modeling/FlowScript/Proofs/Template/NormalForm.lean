import FlowScript.Template.Basic
import Mathlib.Data.List.Chain

/-! Templates in normal form. They are what their segments build, one after the other, and whatever is
done to a template in normal form keeps it there. -/

namespace FlowScript

def Segment.isText : Segment → Bool
  | .text _ => true
  | .var _ => false

namespace Template

/-- No text segment is empty and no two text segments are neighbours. -/
structure IsNormal (t : Template) : Prop where
  nonempty : ∀ s, .text s ∈ t.segments → s ≠ ""
  apart : t.segments.IsChain fun first second => ¬(first.isText ∧ second.isText)

theorem appendText_cons_var (s name : String) (rest : List Segment) :
    appendText s (.var name :: rest) = .var name :: appendText s rest := by
  rw [appendText]
  rintro t ⟨⟩

theorem appendText_cons_of_ne_nil (s : String) (segment : Segment) {rest : List Segment}
    (hrest : rest ≠ []) : appendText s (segment :: rest) = segment :: appendText s rest := by
  rw [appendText]
  exact fun t _ hnil => hrest hnil

theorem appendText_ne_nil (s : String) {segments : List Segment} (h : segments ≠ []) :
    appendText s segments ≠ [] := by
  fun_cases appendText s segments with
  | case1 => exact absurd rfl h
  | case2 => exact absurd rfl h
  | case3 => exact List.cons_ne_nil _ _
  | case4 => exact List.cons_ne_nil _ _

theorem appendText_appendText (u v : String) (segments : List Segment) :
    appendText v (appendText u segments) = appendText (u ++ v) segments := by
  fun_induction appendText u segments with
  | case1 hu => rw [hu, String.empty_append]
  | case2 hu =>
    have huv : u ++ v ≠ "" := fun h => hu (String.append_eq_empty_iff.mp h).1
    rw [appendText, appendText, if_neg huv]
  | case3 w => rw [appendText, appendText, String.append_assoc]
  | case4 segment rest hmerge ih =>
    cases segment with
    | var name => rw [appendText_cons_var, appendText_cons_var, ih]
    | text w =>
      have hrest : rest ≠ [] := hmerge w rfl
      rw [appendText_cons_of_ne_nil v _ (appendText_ne_nil u hrest),
        appendText_cons_of_ne_nil _ _ hrest, ih]

theorem appendText_empty (segments : List Segment) : appendText "" segments = segments := by
  fun_induction appendText "" segments with
  | case1 => rfl
  | case2 hne => exact absurd rfl hne
  | case3 u => rw [String.append_empty]
  | case4 segment rest _ ih => rw [ih]

@[simp] theorem pushText_empty (t : Template) : t.pushText "" = t :=
  congrArg mk (appendText_empty t.segments)

theorem pushText_pushText (t : Template) (u v : String) :
    (t.pushText u).pushText v = t.pushText (u ++ v) :=
  congrArg mk (appendText_appendText u v t.segments)

theorem appendText_append (s : String) (before : List Segment) {last : List Segment}
    (hlast : last ≠ []) : appendText s (before ++ last) = before ++ appendText s last := by
  induction before with
  | nil => rfl
  | cons segment before ih =>
    have hrest : before ++ last ≠ [] := List.append_ne_nil_of_right_ne_nil _ hlast
    rw [List.cons_append, appendText_cons_of_ne_nil s segment hrest, ih, List.cons_append]

theorem appendText_append_var {s : String} (hs : s ≠ "") (before : List Segment) (name : String) :
    appendText s (before ++ [.var name]) = before ++ [.var name] ++ [.text s] := by
  rw [appendText_append s before (List.cons_ne_nil _ _), appendText_cons_var, appendText, if_neg hs,
    List.append_assoc]
  rfl

theorem appendText_append_text (s u : String) (before : List Segment) :
    appendText s (before ++ [.text u]) = before ++ [.text (u ++ s)] := by
  rw [appendText_append s before (List.cons_ne_nil _ _), appendText]

theorem pushSegment_of_isNormal {before after : List Segment} {segment : Segment}
    (h : IsNormal ⟨before ++ segment :: after⟩) :
    pushSegment ⟨before⟩ segment = ⟨before ++ [segment]⟩ := by
  cases segment with
  | var name => rfl
  | text s =>
    have hs : s ≠ "" := h.nonempty s (List.mem_append_right _ (List.mem_cons_self ..))
    rcases List.eq_nil_or_concat before with rfl | ⟨init, last, rfl⟩
    · exact congrArg mk (if_neg hs)
    · rw [List.concat_eq_append] at h ⊢
      have hapart := h.apart
      rw [List.append_assoc] at hapart
      have hlast := (List.isChain_append_cons_cons.mp hapart).2.1
      -- Text after text is excluded, so the new text finds a variable to stand behind.
      cases last with
      | text u => exact absurd ⟨rfl, rfl⟩ hlast
      | var name => exact congrArg mk (appendText_append_var hs init name)

theorem foldl_pushSegment_of_isNormal (before after : List Segment)
    (h : IsNormal ⟨before ++ after⟩) :
    after.foldl pushSegment ⟨before⟩ = ⟨before ++ after⟩ := by
  induction after generalizing before with
  | nil => rw [List.append_nil]; rfl
  | cons segment after ih =>
    rw [List.foldl_cons, pushSegment_of_isNormal h, ih, List.append_assoc]
    · rfl
    · rw [List.append_assoc]
      exact h

theorem append_of_isNormal {t : Template} (h : t.IsNormal) : empty ++ t = t :=
  foldl_pushSegment_of_isNormal [] t.segments h

section Operations

variable {t : Template}

theorem isNormal_empty : empty.IsNormal :=
  ⟨fun _ h => absurd h List.not_mem_nil, .nil⟩

/-- A segment may come last unless it is an empty text or a text behind a text. -/
theorem isNormal_concat_iff {segments : List Segment} {segment : Segment} :
    IsNormal ⟨segments ++ [segment]⟩ ↔
      IsNormal ⟨segments⟩ ∧ segment ≠ .text "" ∧
        ∀ last ∈ segments.getLast?, ¬(last.isText ∧ segment.isText) := by
  have hchain (R : Segment → Segment → Prop) : (segments ++ [segment]).IsChain R ↔
      segments.IsChain R ∧ ∀ last ∈ segments.getLast?, R last segment := by
    simp [List.isChain_append]
  constructor
  · rintro ⟨hnonempty, hapart⟩
    obtain ⟨hbefore, hlast⟩ := (hchain _).mp hapart
    refine ⟨⟨fun s hs => hnonempty s (List.mem_append_left _ hs), hbefore⟩, ?_, hlast⟩
    rintro rfl
    exact hnonempty "" (List.mem_append_right _ (List.mem_singleton_self _)) rfl
  · rintro ⟨⟨hnonempty, hapart⟩, hsegment, hlast⟩
    refine ⟨fun s hs => ?_, (hchain _).mpr ⟨hapart, hlast⟩⟩
    rcases List.mem_append.mp hs with hs | hs
    · exact hnonempty s hs
    · rintro rfl
      exact hsegment (List.mem_singleton.mp hs).symm

theorem IsNormal.pushVar (h : t.IsNormal) (name : String) : (t.pushVar name).IsNormal :=
  isNormal_concat_iff.mpr ⟨h, Segment.noConfusion, fun _ _ hboth => Bool.noConfusion hboth.2⟩

theorem IsNormal.pushText (h : t.IsNormal) (s : String) : (t.pushText s).IsNormal := by
  by_cases hs : s = ""
  · rwa [hs, pushText_empty]
  have hsegment : Segment.text s ≠ .text "" := fun heq => hs (Segment.text.inj heq)
  obtain ⟨segments⟩ := t
  rw [Template.pushText]
  rcases List.eq_nil_or_concat segments with rfl | ⟨init, last, rfl⟩
  · rw [appendText, if_neg hs]
    exact isNormal_concat_iff.mpr ⟨h, hsegment, by simp⟩
  · rw [List.concat_eq_append] at h ⊢
    cases last with
    | var name =>
      rw [appendText_append_var hs]
      exact isNormal_concat_iff.mpr ⟨h, hsegment, by simp [Segment.isText]⟩
    | text u =>
      rw [appendText_append_text]
      obtain ⟨hinit, -, hlast⟩ := isNormal_concat_iff.mp h
      refine isNormal_concat_iff.mpr ⟨hinit, fun heq => hs ?_, hlast⟩
      exact (String.append_eq_empty_iff.mp (Segment.text.inj heq)).2

theorem IsNormal.pushSegment (h : t.IsNormal) (segment : Segment) :
    (t.pushSegment segment).IsNormal := by
  cases segment with
  | text s => exact h.pushText s
  | var name => exact h.pushVar name

theorem IsNormal.append (h : t.IsNormal) (other : Template) : (t ++ other).IsNormal := by
  obtain ⟨segments⟩ := other
  change (segments.foldl Template.pushSegment t).IsNormal
  induction segments generalizing t with
  | nil => exact h
  | cons segment rest ih => exact ih (h.pushSegment segment)

def Token.segment (bareText : String) : Token → Segment
  | .text s => .text s
  | .var name => .var name
  | .bare => .text bareText

theorem ofTokens_eq_append (bareText : String) (tokens : List Token) (start : Template) :
    ofTokens bareText tokens start = start ++ ⟨tokens.map (Token.segment bareText)⟩ := by
  change _ = (tokens.map (Token.segment bareText)).foldl Template.pushSegment start
  rw [List.foldl_map, ofTokens]
  congr 1
  funext t token
  cases token <;> rfl

theorem IsNormal.ofTokens (h : t.IsNormal) (bareText : String) (tokens : List Token) :
    (Template.ofTokens bareText tokens t).IsNormal := by
  rw [ofTokens_eq_append]
  exact h.append _

/-- What can be done to a template. The first three start over, whatever it was. -/
inductive Operation where
  | literal (s : String)
  | ofVar (name : String)
  | parse (s : String)
  | pushText (s : String)
  | pushVar (name : String)
  | append (other : Template)

def Operation.apply (t : Template) : Operation → Template
  | .literal s => Template.literal s
  | .ofVar name => Template.ofVar name
  | .parse s => Template.parse s
  | .pushText s => t.pushText s
  | .pushVar name => t.pushVar name
  | .append other => t ++ other

theorem IsNormal.apply (h : t.IsNormal) (operation : Operation) :
    (operation.apply t).IsNormal := by
  cases operation with
  | literal s => exact isNormal_empty.pushText s
  | ofVar name => exact isNormal_empty.pushVar name
  | parse s => exact isNormal_empty.ofTokens "$" (scan s)
  | pushText s => exact h.pushText s
  | pushVar name => exact h.pushVar name
  | append other => exact h.append other

theorem IsNormal.foldl_apply (h : t.IsNormal) (operations : List Operation) :
    (operations.foldl Operation.apply t).IsNormal := by
  induction operations generalizing t with
  | nil => exact h
  | cons operation rest ih => exact ih (h.apply operation)

end Operations

end Template

end FlowScript
