import FlowScript.Layout.Normalize
import FlowScript.Proofs.Text.Trim

/-! Lines of a text and the entries that they become, one line after the other. -/

namespace FlowScript

namespace Text

def unlines (lines : List (List Char)) : List Char :=
  lines.flatMap (· ++ ['\n'])

theorem unlines_cons (line : List Char) (lines : List (List Char)) :
    unlines (line :: lines) = (line ++ ['\n']) ++ unlines lines :=
  rfl

theorem unlines_append (lines more : List (List Char)) :
    unlines (lines ++ more) = unlines lines ++ unlines more :=
  List.flatMap_append

theorem unlines_concat (lines : List (List Char)) (line : List Char) :
    unlines (lines ++ [line]) = unlines lines ++ (line ++ ['\n']) := by
  rw [unlines_append, unlines, unlines, List.flatMap_singleton]

theorem intercalate_lineFeed {lines : List (List Char)} (h : lines ≠ []) :
    ['\n'].intercalate lines ++ ['\n'] = unlines lines := by
  induction lines with
  | nil => contradiction
  | cons line rest ih =>
    cases rest with
    | nil => simp [unlines]
    | cons next rest =>
      rw [List.intercalate_cons_cons, unlines_cons, List.append_assoc, ih (by simp)]

/-- Only the end of the last line can get lost between a text and its lines. -/
theorem unlines_splitLines (cs : List Char) :
    unlines (splitLines cs) = cs ∨ unlines (splitLines cs) = cs ++ ['\n'] := by
  induction cs with
  | nil => exact .inl rfl
  | cons c cs ih =>
    rw [splitLines, splitAfter]
    rw [splitLines] at ih
    by_cases hc : c = '\n'
    · rw [if_pos hc, unlines_cons, hc]
      exact ih.imp (congrArg ('\n' :: ·)) (congrArg ('\n' :: ·))
    · rw [if_neg hc]
      cases hlines : splitAfter '\n' cs with
      | nil =>
        have hcs : cs = [] := by simpa [hlines, unlines] using ih
        exact .inr (by rw [hcs]; rfl)
      | cons line lines =>
        rw [hlines, unlines_cons] at ih
        exact ih.imp (congrArg (c :: ·)) (congrArg (c :: ·))

theorem splitLines_lineFeed {line : List Char} (hline : '\n' ∉ line) (rest : List Char) :
    splitLines (line ++ '\n' :: rest) = line :: splitLines rest := by
  induction line with
  | nil => rfl
  | cons c cs ih =>
    obtain ⟨hc, hcs⟩ := List.ne_and_not_mem_of_not_mem_cons hline
    have hrest := ih hcs
    rw [splitLines] at hrest ⊢
    rw [List.cons_append, splitAfter, if_neg (Ne.symm hc), hrest]

theorem splitLines_unlines {lines : List (List Char)} (h : ∀ line ∈ lines, '\n' ∉ line) :
    splitLines (unlines lines) = lines := by
  induction lines with
  | nil => rfl
  | cons line lines ih =>
    obtain ⟨hline, hlines⟩ := List.forall_mem_cons.mp h
    rw [unlines_cons, List.append_assoc, List.singleton_append, splitLines_lineFeed hline,
      ih hlines]

theorem lineFeed_notMem_of_mem_splitLines {cs line : List Char} (h : line ∈ splitLines cs) :
    '\n' ∉ line := by
  induction cs generalizing line with
  | nil => exact absurd h List.not_mem_nil
  | cons c cs ih =>
    rw [splitLines] at ih h
    rw [splitAfter] at h
    by_cases hc : c = '\n'
    · rw [if_pos hc] at h
      rcases List.mem_cons.mp h with rfl | h
      · exact List.not_mem_nil
      · exact ih h
    · rw [if_neg hc] at h
      cases hlines : splitAfter '\n' cs with
      | nil =>
        rw [hlines] at h
        rw [List.mem_singleton.mp h]
        simpa using Ne.symm hc
      | cons first others =>
        rw [hlines] at ih h
        rcases List.mem_cons.mp h with rfl | h
        · exact List.not_mem_cons_of_ne_of_not_mem (Ne.symm hc) (ih (List.mem_cons_self ..))
        · exact ih (List.mem_cons_of_mem _ h)

def IsEnded (cs : List Char) : Prop :=
  unlines (splitLines cs) = cs

theorem isEnded_unlines {lines : List (List Char)} (h : ∀ line ∈ lines, '\n' ∉ line) :
    IsEnded (unlines lines) := by
  rw [IsEnded, splitLines_unlines h]

theorem isEnded_lineFeed (cs : List Char) : IsEnded (cs ++ ['\n']) := by
  have hlines : ∀ line ∈ splitLines cs, '\n' ∉ line :=
    fun _ h => lineFeed_notMem_of_mem_splitLines h
  rcases unlines_splitLines cs with hcs | hcs
  · have hmore : ∀ line ∈ splitLines cs ++ [[]], '\n' ∉ line :=
      List.forall_mem_append.mpr ⟨hlines, by simp⟩
    have hunlines : unlines (splitLines cs ++ [[]]) = cs ++ ['\n'] := by
      rw [unlines_append, hcs]
      rfl
    exact hunlines ▸ isEnded_unlines hmore
  · exact hcs ▸ isEnded_unlines hlines

theorem splitLines_append {cs : List Char} (hcs : IsEnded cs) (ds : List Char) :
    splitLines (cs ++ ds) = splitLines cs ++ splitLines ds := by
  have hunlines : ∀ lines : List (List Char), (∀ line ∈ lines, '\n' ∉ line) →
      splitLines (unlines lines ++ ds) = lines ++ splitLines ds := by
    intro lines hlines
    induction lines with
    | nil => rfl
    | cons line lines ih =>
      obtain ⟨hline, hlines⟩ := List.forall_mem_cons.mp hlines
      rw [unlines_cons, List.append_assoc, List.append_assoc, List.singleton_append,
        splitLines_lineFeed hline, ih hlines, List.cons_append]
  rw [← hunlines _ fun _ h => lineFeed_notMem_of_mem_splitLines h, hcs]

theorem IsEnded.append {cs ds : List Char} (hcs : IsEnded cs) (hds : IsEnded ds) :
    IsEnded (cs ++ ds) := by
  rw [IsEnded, splitLines_append hcs, unlines_append, hcs, hds]

end Text

namespace Layout

open Text (unlines splitLines trimChars)

theorem write_eq (width : Nat) (entries : List Entry) :
    write width entries = unlines (entries.map (Entry.text width)) ∨
      (entries = [] ∧ write width entries = ['\n']) := by
  cases entries with
  | nil => exact .inr ⟨rfl, rfl⟩
  | cons entry rest => exact .inl (Text.intercalate_lineFeed (by simp))

theorem closeLeading_nil (line : List Char) (level : Nat) :
    closeLeading line level [] = (level, []) := by
  induction line with
  | nil => rfl
  | cons c cs ih =>
    rw [closeLeading]
    cases Bracket.closing? c with
    | none => rfl
    | some shape => exact ih

namespace Position

def level (pos : Position) (line : List Char) : Nat :=
  (closeLeading line (innerLevel pos.stack) pos.stack).1

theorem level_of_stack_eq_nil {pos : Position} (hstack : pos.stack = []) (line : List Char) :
    pos.level line = 0 := by
  rw [level, hstack, closeLeading_nil]
  rfl

def step (pos : Position) (raw : List Char) : List Entry × Position :=
  match trimChars raw with
  | [] => ([], { pos with gap := pos.previous.isSome })
  | line => pos.place line

def after (pos : Position) (lines : List (List Char)) : Position :=
  lines.foldl (fun pos raw => (pos.step raw).2) pos

theorem entries_place (pos : Position) (line : List Char) :
    (pos.place line).1 = (if pos.keepsGap line then [.blank] else []) ++
      [.line (pos.level line) line] :=
  rfl

theorem step_of_blank (pos : Position) {raw : List Char} (h : trimChars raw = []) :
    pos.step raw = ([], { pos with gap := pos.previous.isSome }) := by
  rw [step, h]

theorem step_of_ne_nil (pos : Position) {raw : List Char} (h : trimChars raw ≠ []) :
    pos.step raw = pos.place (trimChars raw) := by
  rw [step]
  split
  · contradiction
  · rfl

theorem entries_cons (pos : Position) (raw : List Char) (rest : List (List Char)) :
    pos.entries (raw :: rest) = (pos.step raw).1 ++ (pos.step raw).2.entries rest := by
  rw [entries]
  cases htrim : trimChars raw with
  | nil =>
    rw [step_of_blank pos htrim]
    rfl
  | cons c cs => rw [step_of_ne_nil pos (by simp [htrim]), htrim]

theorem after_cons (pos : Position) (raw : List Char) (rest : List (List Char)) :
    pos.after (raw :: rest) = (pos.step raw).2.after rest :=
  rfl

theorem after_append (pos : Position) (lines more : List (List Char)) :
    pos.after (lines ++ more) = (pos.after lines).after more :=
  List.foldl_append

theorem entries_append (pos : Position) (lines more : List (List Char)) :
    pos.entries (lines ++ more) = pos.entries lines ++ (pos.after lines).entries more := by
  induction lines generalizing pos with
  | nil => rfl
  | cons raw rest ih =>
    rw [List.cons_append, entries_cons, entries_cons, ih, after_cons, List.append_assoc]

end Position

theorem unlines_place (width : Nat) (pos : Position) (line : List Char) :
    ∃ gap indent, (∀ c ∈ gap, Text.isBlank c) ∧ (∀ c ∈ indent, Text.isBlank c) ∧
      unlines ((pos.place line).1.map (Entry.text width)) = gap ++ (indent ++ line ++ ['\n']) := by
  obtain ⟨level, stack, hclose⟩ :
      ∃ level stack, closeLeading line (innerLevel pos.stack) pos.stack = (level, stack) :=
    ⟨_, _, rfl⟩
  have hindent : ∀ c ∈ List.replicate (level * width) ' ', Text.isBlank c :=
    fun _ hc => Text.isBlank_of_mem_replicate hc
  have hfeed : ∀ c ∈ ['\n'], Text.isBlank c :=
    List.forall_mem_cons.mpr ⟨by decide, List.forall_mem_nil _⟩
  rw [Position.place, hclose]
  by_cases hgap : pos.keepsGap line
  · refine ⟨['\n'], List.replicate (level * width) ' ', hfeed, hindent, ?_⟩
    simp [hgap, unlines, Entry.text]
  · refine ⟨[], List.replicate (level * width) ' ', List.forall_mem_nil _, hindent, ?_⟩
    simp [hgap, unlines, Entry.text]

end Layout

end FlowScript
