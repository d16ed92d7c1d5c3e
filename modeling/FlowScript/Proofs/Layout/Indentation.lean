import FlowScript.Proofs.Layout.Ends
import FlowScript.Proofs.Layout.Relayout
import Mathlib.Data.List.Chain
import Mathlib.Data.List.Forall2

/-! What every layout looks like, whatever the text and its brackets. The levels of the open brackets
never rise from the top of the stack to its bottom, and none of them is above the level of the last
line, so no line is more than one level deeper than the one before. -/

namespace FlowScript.Layout

open Text

section Levels

/-- The levels on a stack are at most the bound, and fall from the top to the bottom or stay. -/
def Descends : Nat → List Open → Prop
  | _, [] => True
  | bound, top :: rest => top.level ≤ bound ∧ Descends top.level rest

variable {bound level : Nat} {stack : List Open}

theorem Descends.mono {bound' : Nat} (h : Descends bound stack) (hle : bound ≤ bound') :
    Descends bound' stack := by
  cases stack with
  | nil => trivial
  | cons top rest => exact ⟨h.1.trans hle, h.2⟩

theorem Descends.innerLevel_le (h : Descends bound stack) : innerLevel stack ≤ bound + 1 := by
  cases stack with
  | nil => exact Nat.zero_le _
  | cons top rest => exact Nat.succ_le_succ h.1

theorem Descends.innerLevel (h : Descends bound stack) : Descends (innerLevel stack) stack := by
  cases stack with
  | nil => trivial
  | cons top rest => exact ⟨Nat.le_succ _, h.2⟩

theorem Descends.close? (h : Descends bound stack) {shape : Bracket} {top : Open}
    {rest : List Open} (hclose : close? shape stack = some (top, rest)) :
    top.level ≤ bound ∧ Descends top.level rest := by
  cases stack with
  | nil => cases hclose
  | cons first others =>
    rw [Layout.close?] at hclose
    split at hclose
    · obtain ⟨rfl, rfl⟩ := Prod.mk.inj (Option.some.inj hclose)
      exact h
    · cases hclose

theorem Descends.closeLeading (h : Descends level stack) (line : List Char) :
    (closeLeading line level stack).1 ≤ level ∧
      Descends (closeLeading line level stack).1 (closeLeading line level stack).2 := by
  induction line generalizing level stack with
  | nil => exact ⟨le_rfl, h⟩
  | cons c cs ih =>
    rw [Layout.closeLeading]
    cases Bracket.closing? c with
    | none => exact ⟨le_rfl, h⟩
    | some shape =>
      cases hclose : Layout.close? shape stack with
      | none =>
        dsimp only
        rw [hclose]
        exact ih h
      | some popped =>
        obtain ⟨top, rest⟩ := popped
        obtain ⟨hle, hrest⟩ := h.close? hclose
        dsimp only
        rw [hclose]
        exact ⟨(ih hrest).1.trans hle, (ih hrest).2⟩

theorem Descends.stackAfter (h : Descends level stack) (c : Char) :
    Descends level (stackAfter level stack c) := by
  unfold Layout.stackAfter
  split
  · exact ⟨le_rfl, h⟩
  · rename_i shape _ _
    cases hclose : Layout.close? shape stack with
    | none => exact h
    | some popped =>
      obtain ⟨hle, hrest⟩ := h.close? hclose
      exact hrest.mono hle
  · exact h

theorem Descends.scanBrackets (h : Descends level stack) (state : QuoteState) (cs : List Char) :
    Descends level (scanBrackets level state stack cs) := by
  induction cs generalizing state stack with
  | nil => cases state <;> exact h
  | cons c cs ih =>
    cases state with
    | outside => exact ih (h.stackAfter c) _
    | inside quote => exact ih h _
    | escaped quote => exact ih h _

/-- The level of a line is at most one above the level that bounds the open brackets, and bounds the
brackets that are open behind it. -/
theorem Position.descends_place (pos : Position) (h : Descends bound pos.stack)
    (line : List Char) :
    pos.level line ≤ bound + 1 ∧ Descends (pos.level line) (pos.place line).2.stack := by
  obtain ⟨hle, hclosed⟩ := h.innerLevel.closeLeading line
  exact ⟨hle.trans h.innerLevel_le, hclosed.scanBrackets .outside _⟩

def Entry.level? : Entry → Option Nat
  | .blank => none
  | .line level _ => some level

def levels (entries : List Entry) : List Nat :=
  entries.filterMap Entry.level?

theorem Position.levels_place (pos : Position) (line : List Char) :
    levels (pos.place line).1 = [pos.level line] := by
  rw [entries_place]
  split <;> rfl

theorem Position.isChain_levels (pos : Position) (h : Descends bound pos.stack)
    (lines : List (List Char)) :
    (bound :: levels (pos.entries lines)).IsChain fun level next => next ≤ level + 1 := by
  induction lines generalizing pos bound with
  | nil => exact .singleton bound
  | cons raw rest ih =>
    rw [entries_cons]
    by_cases htrim : trimChars raw = []
    · rw [pos.step_of_blank htrim, List.nil_append]
      exact ih { pos with gap := pos.previous.isSome } h
    · obtain ⟨hle, hbehind⟩ := pos.descends_place h (trimChars raw)
      have hlevels (others : List Entry) : levels ((pos.place (trimChars raw)).1 ++ others) =
          pos.level (trimChars raw) :: levels others := by
        rw [levels, List.filterMap_append]
        exact congrArg (· ++ _) (pos.levels_place (trimChars raw))
      rw [pos.step_of_ne_nil htrim, hlevels, List.isChain_cons_cons]
      exact ⟨hle, ih _ hbehind⟩

end Levels

section Gaps

/-- A blank line is followed by a line that does not start with a closing bracket, and it follows
one that does not end with an opening bracket. -/
def Entry.MayPrecede : Entry → Entry → Prop
  | .blank, .blank => False
  | .blank, .line _ text => ¬startsWithCloser text
  | .line _ text, .blank => ¬endsWithOpener text
  | .line _ _, .line _ _ => True

theorem Position.isChain_entries (pos : Position) (hgap : pos.gap → pos.previous.isSome)
    (level : Nat) (lines : List (List Char)) :
    ((pos.previous.map (Entry.line level)).toList ++ pos.entries lines).IsChain
      Entry.MayPrecede := by
  induction lines generalizing pos level with
  | nil => cases hprevious : pos.previous <;> simp [entries]
  | cons raw rest ih =>
    rw [entries_cons]
    by_cases htrim : trimChars raw = []
    · rw [pos.step_of_blank htrim, List.nil_append]
      exact ih { pos with gap := pos.previous.isSome } id level
    · have hrest := ih (pos.place (trimChars raw)).2 (fun h => absurd h Bool.false_ne_true)
        (pos.level (trimChars raw))
      have hprevious : (pos.place (trimChars raw)).2.previous = some (trimChars raw) := rfl
      rw [hprevious, Option.map_some, Option.toList_some, List.singleton_append] at hrest
      rw [pos.step_of_ne_nil htrim, entries_place]
      cases hkeeps : pos.keepsGap (trimChars raw) with
      | true =>
        simp only [keepsGap, Bool.and_eq_true, Bool.not_eq_true'] at hkeeps
        obtain ⟨⟨hopen, hcloser⟩, hopener⟩ := hkeeps
        obtain ⟨last, hlast⟩ := Option.isSome_iff_exists.mp (hgap hopen)
        rw [hlast] at hopener
        rw [hlast, if_pos rfl]
        refine List.isChain_cons_cons.mpr ⟨?_, List.isChain_cons_cons.mpr ⟨?_, hrest⟩⟩
        · simpa [Entry.MayPrecede] using hopener
        · simpa [Entry.MayPrecede] using hcloser
      | false =>
        rw [if_neg Bool.false_ne_true, List.nil_append, List.singleton_append]
        cases pos.previous with
        | none => exact hrest
        | some last => exact List.isChain_cons_cons.mpr ⟨trivial, hrest⟩

end Gaps

section Lines

variable (width : Nat)

def IsIndented (level : Nat) (line : List Char) : Prop :=
  line = List.replicate (level * width) ' ' ++ trimChars line

def Entry.IsTrimmed : Entry → Prop
  | .blank => True
  | .line _ text => text ≠ [] ∧ ∃ raw, text = trimChars raw

theorem Position.isTrimmed_entries (pos : Position) (lines : List (List Char)) :
    ∀ entry ∈ pos.entries lines, entry.IsTrimmed := by
  induction lines generalizing pos with
  | nil => exact List.forall_mem_nil _
  | cons raw rest ih =>
    rw [entries_cons]
    refine List.forall_mem_append.mpr ⟨?_, ih _⟩
    by_cases htrim : trimChars raw = []
    · rw [pos.step_of_blank htrim]
      exact List.forall_mem_nil _
    · have hline : (Entry.line (pos.level (trimChars raw)) (trimChars raw)).IsTrimmed :=
        ⟨htrim, raw, rfl⟩
      rw [pos.step_of_ne_nil htrim, entries_place]
      refine List.forall_mem_append.mpr ⟨?_, List.forall_mem_singleton.mpr hline⟩
      split
      · exact List.forall_mem_singleton.mpr trivial
      · exact List.forall_mem_nil _

variable {width}

theorem trimChars_text {entry : Entry} (h : entry.IsTrimmed) :
    trimChars (entry.text width) = match entry with
      | .blank => []
      | .line _ text => text := by
  cases entry with
  | blank => rfl
  | line level text =>
    obtain ⟨-, raw, rfl⟩ := h
    exact trimChars_text_line width level raw

theorem getLast?_text {level : Nat} {text : List Char} (h : text ≠ []) :
    (Entry.text width (.line level text)).getLast? = text.getLast? := by
  rw [Entry.text, List.getLast?_append_of_ne_nil _ h]

theorem forall₂_isIndented {entries : List Entry} (h : ∀ entry ∈ entries, entry.IsTrimmed) :
    List.Forall₂ (IsIndented width) (levels entries)
      ((entries.map (Entry.text width)).filter (trimChars · ≠ [])) := by
  induction entries with
  | nil => exact .nil
  | cons entry rest ih =>
    obtain ⟨hentry, hrest⟩ := List.forall_mem_cons.mp h
    cases entry with
    | blank => exact ih hrest
    | line level text =>
      have htrim : trimChars (Entry.text width (.line level text)) = text :=
        trimChars_text hentry
      have hindented : IsIndented width level (Entry.text width (.line level text)) := by
        rw [IsIndented, htrim]
        rfl
      rw [List.map_cons, List.filter_cons_of_pos (by simpa [htrim] using hentry.1)]
      exact .cons hindented (ih hrest)

end Lines

/-- What may follow a line of a layout: a blank line only if the line is not blank and does not end
with an opening bracket; behind a blank line, only a line that does not start with a closing one. -/
structure MayFollow (line next : List Char) : Prop where
  single : trimChars line = [] → trimChars next ≠ []
  opened : endsWithOpener line → trimChars next ≠ []
  closed : trimChars line = [] → ¬startsWithCloser (trimChars next)

structure IsLaidOut (width : Nat) (lines : List (List Char)) : Prop where
  first : ∃ c rest others, lines = (c :: rest) :: others ∧ isBlank c = false
  trailing : ∀ line ∈ lines, ∀ c, line.getLast? = some c → isBlank c = false
  gaps : lines.IsChain MayFollow
  levels : ∃ levels, List.Forall₂ (IsIndented width) levels (lines.filter (trimChars · ≠ [])) ∧
    levels.IsChain fun level next => next ≤ level + 1

section Text

variable {width : Nat}

theorem mayFollow_text {entry next : Entry} (hentry : entry.IsTrimmed) (hnext : next.IsTrimmed)
    (h : entry.MayPrecede next) : MayFollow (entry.text width) (next.text width) := by
  cases entry with
  | blank =>
    cases next with
    | blank => exact absurd h id
    | line level text =>
      have htrim : trimChars (Entry.text width (.line level text)) = text := trimChars_text hnext
      refine ⟨fun _ => ?_, fun hopener => absurd hopener (by simp [Entry.text, endsWithOpener]),
        fun _ => ?_⟩
      · rw [htrim]
        exact hnext.1
      · rwa [htrim]
  | line level text =>
    have htrim : trimChars (Entry.text width (.line level text)) ≠ [] := by
      rw [trimChars_text hentry]
      exact hentry.1
    refine ⟨fun hnil => absurd hnil htrim, fun hopener => ?_, fun hnil => absurd hnil htrim⟩
    rw [endsWithOpener, getLast?_text hentry.1] at hopener
    cases next with
    | blank => exact absurd hopener h
    | line level' text' =>
      rw [trimChars_text hnext]
      exact hnext.1

theorem isBlank_getLast?_text {entry : Entry} (h : entry.IsTrimmed) {c : Char}
    (hlast : (entry.text width).getLast? = some c) : isBlank c = false := by
  cases entry with
  | blank => cases hlast
  | line level text =>
    rw [getLast?_text h.1] at hlast
    obtain ⟨-, raw, rfl⟩ := h
    exact getLast?_trimChars hlast

theorem isLaidOut_entries {cs : List Char} (hne : entries cs ≠ []) :
    IsLaidOut width ((entries cs).map (Entry.text width)) := by
  have htrimmed : ∀ entry ∈ entries cs, entry.IsTrimmed := Position.start.isTrimmed_entries _
  refine ⟨?_, fun line hline c hlast => ?_, ?_, levels (entries cs), forall₂_isIndented htrimmed, ?_⟩
  · rcases Position.start.head?_entries rfl rfl rfl (splitLines cs) with
      hnil | ⟨raw, hraw, hhead⟩
    · exact absurd hnil hne
    · obtain ⟨others, hothers⟩ := List.head?_eq_some_iff.mp hhead
      obtain ⟨c, rest, hchars⟩ := List.exists_cons_of_ne_nil hraw
      refine ⟨c, rest, others.map (Entry.text width), ?_, head?_trimChars (by rw [hchars]; rfl)⟩
      rw [entries, hothers, List.map_cons, hchars]
      simp [Entry.text]
  · obtain ⟨entry, hentry, rfl⟩ := List.mem_map.mp hline
    exact isBlank_getLast?_text (htrimmed entry hentry) hlast
  · refine (List.isChain_map _).mpr (List.IsChain.imp_of_mem_imp (fun entry next hentry hnext => ?_)
      (Position.start.isChain_entries (fun h => absurd h Bool.false_ne_true) 0 (splitLines cs)))
    exact mayFollow_text (htrimmed entry hentry) (htrimmed next hnext)
  · have hstart : Descends 0 Position.start.stack := trivial
    exact (Position.start.isChain_levels hstart (splitLines cs)).tail

theorem entries_eq_nil_iff (text : String) : entries text.toList = [] ↔ contentLines text = [] := by
  have hcontent : (((entries text.toList).map (Entry.text 0)).map trimChars).filter (· ≠ []) =
      contentLines text := filter_trimChars_entries 0 .start _
  constructor
  · intro hnil
    rw [← hcontent, hnil]
    rfl
  · intro hnil
    by_contra hne
    have hlaid : IsLaidOut 0 ((entries text.toList).map (Entry.text 0)) := isLaidOut_entries hne
    obtain ⟨c, rest, others, hlines, hc⟩ := hlaid.first
    rw [hlines, hnil] at hcontent
    have htrim : trimChars (c :: rest) ≠ [] := by
      intro hblank
      have hall := trimChars_eq_nil_iff.mp hblank c List.mem_cons_self
      rw [hc] at hall
      contradiction
    simp [htrim] at hcontent

end Text

/-- A text without content is laid out as one blank line. The layout of any other text ends with one
line feed, and its lines are those of a layout, whatever the brackets of the text. -/
theorem isLaidOut_normalize (text : String) (width : Nat) :
    (contentLines text = [] → normalize text width = "\n") ∧
    (contentLines text ≠ [] →
      (∃ body last, (normalize text width).toList = body ++ [last, '\n'] ∧ last ≠ '\n') ∧
      IsLaidOut width (splitLines (normalize text width).toList)) := by
  rw [ne_eq, ← entries_eq_nil_iff]
  have hlist : (normalize text width).toList = write width (entries text.toList) :=
    String.toList_ofList
  rw [hlist]
  refine ⟨fun hnil => by rw [normalize, hnil]; rfl, fun hne => ?_⟩
  have hlaid : IsLaidOut width (splitLines (write width (entries text.toList))) := by
    rcases splitLines_write width text.toList with hlines | ⟨hnil, -⟩
    · rw [hlines]
      exact isLaidOut_entries hne
    · exact absurd hnil hne
  refine ⟨?_, hlaid⟩
  obtain ⟨body, hwrite, hbody⟩ := exists_write_eq width text.toList
  rcases List.eq_nil_or_concat body with rfl | ⟨front, last, rfl⟩
  · obtain ⟨c, rest, others, hlines, -⟩ := hlaid.first
    rw [hwrite] at hlines
    cases hlines
  · rw [List.concat_eq_append] at hwrite hbody
    have hlast : isBlank last = false :=
      getLast?_trimChars (hbody.symm ▸ List.getLast?_concat)
    refine ⟨front, last, by rw [hwrite, List.append_assoc]; rfl, ?_⟩
    rintro rfl
    exact absurd hlast (by decide)

end FlowScript.Layout
