import FlowScript.Proofs.Layout.Indentation
import FlowScript.Proofs.Layout.OpenBrackets
import FlowScript.Proofs.Layout.Stack

/-! Where the lines of a nested text stand in its layout. A line that starts with closing brackets
stands where the last of them was opened, any other line is one level deeper than the innermost open
bracket. The brackets are those of the grammar; the levels that the layout keeps with them are the
levels of the lines on which they were opened. -/

namespace FlowScript.Layout

open Text

section Nested

variable {cs ds : List Char}

theorem IsCut.exchange {blanks others : List Char} (hblanks : ∀ c ∈ blanks, isBlank c)
    (hothers : ∀ c ∈ others, isBlank c) (h : IsCut cs (blanks ++ ds)) : IsCut cs (others ++ ds) := by
  obtain ⟨opens, hopens, hcloses⟩ := h
  have hplain : ∀ c ∈ blanks, isPlain c := fun c hc => isPlain_of_isBlank (hblanks c hc)
  have hnested : Nested others :=
    nested_of_isPlain (List.all_eq_true.mpr fun c hc => isPlain_of_isBlank (hothers c hc))
  exact ⟨opens, hopens, (hcloses.of_append_plain hplain).append_left hnested⟩

theorem isCut_unlines {lines : List (List Char)} (h : Nested (unlines lines ++ ds)) :
    IsCut (unlines lines) ds := by
  rcases List.eq_nil_or_concat lines with rfl | ⟨front, last, rfl⟩
  · exact isCut_nil h
  · have hfeed : ∀ c ∈ ['\n'], isPlain c := List.forall_mem_singleton.mpr (by decide)
    rw [List.concat_eq_append, unlines_concat, ← List.append_assoc] at h ⊢
    rw [List.append_assoc, List.singleton_append] at h
    have hcut : IsCut (unlines front ++ last) ([] ++ '\n' :: ds) :=
      isCut_of_lineFeed h (List.forall_mem_nil _)
    exact hcut.move_plain hfeed

variable (width : Nat) (pos : Position)

theorem Position.nested_place {done rest : List (List Char)} {raw : List Char}
    (h : Nested (unlines done ++ unlines (raw :: rest))) :
    Nested (unlines (done ++ (pos.place (trimChars raw)).1.map (Entry.text width)) ++
      unlines rest) := by
  obtain ⟨gap, indent, hgap, hindent, hplace⟩ := unlines_place width pos (trimChars raw)
  obtain ⟨before, after, hraw, hbefore, hafter⟩ := exists_eq_blanks_append_trimChars raw
  have hlines : unlines (raw :: rest) =
      before ++ (trimChars raw ++ (after ++ '\n' :: unlines rest)) := by
    conv_lhs => rw [unlines_cons, hraw]
    simp only [List.append_assoc, List.singleton_append]
  rw [hlines] at h
  have hfront : Nested (unlines done ++ ((gap ++ indent) ++
      (trimChars raw ++ (after ++ '\n' :: unlines rest)))) :=
    ((isCut_unlines h).exchange hbefore (List.forall_mem_append.mpr ⟨hgap, hindent⟩)).nested
  have hbehind : Nested ((unlines done ++ ((gap ++ indent) ++ trimChars raw)) ++
      (after ++ '\n' :: unlines rest)) := by
    simpa only [List.append_assoc] using hfront
  have hplain : ∀ c ∈ after, isPlain c := fun c hc => isPlain_of_isBlank (hafter c hc)
  have hplaced := ((isCut_of_lineFeed hbehind hplain).exchange hafter
    (List.forall_mem_nil _)).nested
  rw [unlines_append, hplace]
  simpa only [List.append_assoc, List.nil_append, List.singleton_append] using hplaced

theorem Position.nested_entries {done lines : List (List Char)}
    (h : Nested (unlines done ++ unlines lines)) :
    Nested (unlines done ++ unlines ((pos.entries lines).map (Entry.text width))) := by
  induction lines generalizing pos done with
  | nil => exact h
  | cons raw rest ih =>
    rw [entries_cons]
    by_cases htrim : trimChars raw = []
    · -- The whole line is dropped together with its end.
      have hblank : ∀ c ∈ raw ++ ['\n'], isBlank c :=
        List.forall_mem_append.mpr ⟨trimChars_eq_nil_iff.mp htrim,
          List.forall_mem_singleton.mpr (by decide)⟩
      rw [pos.step_of_blank htrim]
      exact ih _ ((isCut_unlines h).exchange hblank (List.forall_mem_nil _)).nested
    · rw [pos.step_of_ne_nil htrim, List.map_append, unlines_append, ← List.append_assoc,
        ← unlines_append]
      exact ih _ (pos.nested_place width h)

theorem Nested.unlines_splitLines (h : Nested cs) : Nested (unlines (splitLines cs)) := by
  rcases Text.unlines_splitLines cs with hcs | hcs
  · rwa [hcs]
  · rw [hcs]
    exact h.append nested_lineFeed

end Nested

section Lines

variable {width : Nat} {lines earlier later : List (List Char)} {line : List Char}

/-- Lines of a nested text which their layout leaves as they are. -/
structure IsStable (width : Nat) (lines : List (List Char)) : Prop where
  fixed : (Position.start.entries lines).map (Entry.text width) = lines
  feeds : ∀ line ∈ lines, '\n' ∉ line
  nested : Nested (unlines lines)

theorem isStable_normalize {text : String} (h : Nested text.toList) (width : Nat) :
    IsStable width (splitLines (normalize text width).toList) ∨
      splitLines (normalize text width).toList = [[]] := by
  have hlist : (normalize text width).toList = write width (entries text.toList) :=
    String.toList_ofList
  rw [hlist]
  rcases splitLines_write width text.toList with hlines | ⟨-, hlines⟩
  · have hfixed : Position.start.entries (splitLines (write width (entries text.toList))) =
        entries text.toList := entries_write width text.toList
    refine .inl ⟨by rw [hfixed, hlines], fun _ h => lineFeed_notMem_of_mem_splitLines h, ?_⟩
    rw [hlines]
    have hnested : Nested (unlines [] ++ unlines (splitLines text.toList)) := h.unlines_splitLines
    exact Position.start.nested_entries width hnested
  · exact .inr hlines

theorem exists_line_of_unlines {front back : List Char} {c : Char} (hc : c ≠ '\n')
    (hlines : ∀ line ∈ lines, '\n' ∉ line) (h : unlines lines = front ++ c :: back) :
    ∃ line, lines[front.count '\n']? = some line ∧ c ∈ line := by
  induction lines generalizing front with
  | nil => simp [unlines] at h
  | cons line rest ih =>
    obtain ⟨hline, hrest⟩ := List.forall_mem_cons.mp hlines
    rw [unlines_cons, List.append_assoc, List.singleton_append] at h
    rcases List.append_eq_append_iff.mp h with ⟨behind, rfl, hbehind⟩ | ⟨behind, rfl, hbehind⟩
    · rcases List.cons_eq_append_iff.mp hbehind with ⟨rfl, hcons⟩ | ⟨front, rfl, hfront⟩
      · exact absurd (List.cons.inj hcons).1 hc
      · -- The character is behind the first line.
        obtain ⟨found, hfound, hmem⟩ := ih hrest hfront
        refine ⟨found, ?_, hmem⟩
        rwa [List.count_append, List.count_eq_zero.mpr hline, Nat.zero_add, List.count_cons_self]
    · rcases List.cons_eq_append_iff.mp hbehind with ⟨rfl, hcons⟩ | ⟨inside, rfl, -⟩
      · exact absurd (List.cons.inj hcons).1.symm hc
      · have hfront : '\n' ∉ front := fun hmem => hline (List.mem_append_left _ hmem)
        refine ⟨front ++ c :: inside, ?_, by simp⟩
        rw [List.count_eq_zero.mpr hfront]
        rfl

theorem length_filter_trimChars (lines : List (List Char)) :
    (lines.filter (trimChars · ≠ [])).length =
      ((lines.map trimChars).filter (· ≠ [])).length := by
  rw [List.filter_map, List.length_map]
  rfl

/-- A line is written behind the indents of its level. The lines that are not blank are compared,
since a blank line is placed together with the line behind it. -/
theorem IsStable.isIndented_append (h : IsStable width (earlier ++ line :: later))
    (hline : trimChars line ≠ []) :
    IsIndented width (Position.start.lineLevel (earlier ++ line :: later) earlier.length) line := by
  have hcounts :
      (((Position.start.entries earlier).map (Entry.text width)).filter (trimChars · ≠ [])).length =
        (earlier.filter (trimChars · ≠ [])).length := by
    rw [length_filter_trimChars, filter_trimChars_entries, length_filter_trimChars]
  have hplaced (pos : Position) :
      ((pos.place (trimChars line)).1.map (Entry.text width)).filter (trimChars · ≠ []) =
        [Entry.text width (.line (pos.level (trimChars line)) (trimChars line))] := by
    have hblank : trimChars (Entry.text width .blank) = [] := rfl
    rw [Position.entries_place]
    split <;> simp [hblank, trimChars_text_line, hline]
  have hfixed := congrArg (List.filter (trimChars · ≠ [])) h.fixed
  rw [Position.entries_append, Position.entries_cons, Position.step_of_ne_nil _ hline,
    List.map_append, List.map_append, List.filter_append, List.filter_append, hplaced,
    List.filter_append, List.filter_cons_of_pos (by simpa using hline)] at hfixed
  have hboth := (List.append_inj hfixed hcounts).2
  rw [IsIndented, Position.lineLevel_append]
  exact (List.cons.inj hboth).1.symm

theorem IsStable.isIndented {number : Nat} (h : IsStable width lines)
    (hget : lines[number]? = some line) (hline : trimChars line ≠ []) :
    IsIndented width (Position.start.lineLevel lines number) line := by
  obtain ⟨hlt, hline'⟩ := List.getElem?_eq_some_iff.mp hget
  have hsplit : lines = lines.take number ++ line :: lines.drop (number + 1) := by
    rw [← hline', ← List.drop_eq_getElem_cons hlt, List.take_append_drop]
  have hindented := IsStable.isIndented_append (hsplit ▸ h) hline
  rwa [← hsplit, List.length_take_of_le hlt.le] at hindented

/-- The blanks that a line starts with. -/
def indentation (line : List Char) : Nat :=
  (line.takeWhile isBlank).length

theorem IsIndented.dropWhile_eq {level : Nat} (h : IsIndented width level line) :
    line.dropWhile isBlank = trimChars line := by
  rw [h, List.dropWhile_append_of_pos fun _ hc => isBlank_of_mem_replicate hc,
    trimChars_append_trimChars fun _ hc => isBlank_of_mem_replicate hc, dropWhile_trimChars]

theorem IsIndented.indentation_eq {level : Nat} (h : IsIndented width level line) :
    indentation line = level * width := by
  rw [h, indentation, List.takeWhile_append_of_pos fun _ hc => isBlank_of_mem_replicate hc,
    takeWhile_trimChars, List.append_nil, List.length_replicate]

end Lines

section Levels

variable {cs : List Char} {inner level : Nat} {stack outer : List Open} {shape : Bracket}

theorem closeLeading_of_not_startsWithCloser (h : ¬startsWithCloser cs) :
    closeLeading cs inner stack = (inner, stack) := by
  cases cs with
  | nil => rfl
  | cons c cs =>
    have hclose : Bracket.closing? c = none := by simpa [startsWithCloser, isCloser] using h
    rw [closeLeading, hclose]

theorem exists_leading_closers (h : startsWithCloser cs) :
    ∃ closers closer shape tail, cs = closers ++ closer :: tail ∧ (∀ c ∈ closers, isCloser c) ∧
      Bracket.closing? closer = some shape ∧ ¬startsWithCloser tail := by
  induction cs with
  | nil => contradiction
  | cons c rest ih =>
    obtain ⟨shape, hclose⟩ := Option.isSome_iff_exists.mp h
    by_cases hrest : startsWithCloser rest
    · obtain ⟨closers, closer, shape', tail, rfl, hclosers, hclose', htail⟩ := ih hrest
      exact ⟨c :: closers, closer, shape', tail, rfl, List.forall_mem_cons.mpr ⟨h, hclosers⟩,
        hclose', htail⟩
    · exact ⟨[], c, shape, rest, rfl, List.forall_mem_nil _, hclose, hrest⟩

theorem closeLeading_append {closers : List Char} (hclosers : ∀ c ∈ closers, isCloser c)
    (rest : List Char) (inner : Nat) (stack : List Open) :
    closeLeading (closers ++ rest) inner stack =
      closeLeading rest (closeLeading closers inner stack).1
        (closeLeading closers inner stack).2 := by
  induction closers generalizing inner stack with
  | nil => rfl
  | cons c closers ih =>
    obtain ⟨hc, hclosers⟩ := List.forall_mem_cons.mp hclosers
    obtain ⟨shape, hclose⟩ := Option.isSome_iff_exists.mp hc
    rw [List.cons_append, closeLeading, closeLeading, hclose]
    dsimp only
    cases close? shape stack with
    | none => exact ih hclosers inner stack
    | some popped => exact ih hclosers popped.1.level popped.2

theorem closeLeading_closers {closers tail : List Char} {closer : Char}
    (hclosers : ∀ c ∈ closers, isCloser c) (hclose : Bracket.closing? closer = some shape)
    (htail : ¬startsWithCloser tail)
    (hstack : scanBrackets level .outside stack closers = ⟨shape, inner⟩ :: outer) (start : Nat) :
    (closeLeading (closers ++ closer :: tail) start stack).1 = inner := by
  have hleft : (closeLeading closers start stack).2 = ⟨shape, inner⟩ :: outer := by
    rw [← hstack, ← scanBrackets_closeLeading level stack closers start,
      List.dropWhile_eq_nil_iff.mpr hclosers]
    rfl
  have hclosed : close? shape (⟨shape, inner⟩ :: outer) = some (⟨shape, inner⟩, outer) := if_pos rfl
  rw [closeLeading_append hclosers, hleft, closeLeading, hclose]
  dsimp only
  rw [hclosed]
  exact congrArg Prod.fst (closeLeading_of_not_startsWithCloser htail)

end Levels

section Alignment

variable {width : Nat} {lines earlier later : List (List Char)} {line : List Char}
  {opens outer : List Unclosed} {shape : Bracket} {number : Nat}

theorem IsStable.exists_opening (h : IsStable width lines) {cs rest : List Char}
    (htext : unlines lines = cs ++ rest) (hopen : OpenBehind cs (⟨shape, number⟩ :: outer)) :
    ∃ opening, lines[number]? = some opening ∧
      indentation opening = Position.start.lineLevel lines number * width := by
  cases hopen with
  | @opener before inside c _ _ _ hopening _ =>
    have hfeed := ne_lineFeed_of_opening hopening
    have hblank : ¬isBlank c := fun hc => by
      simpa [isPlain, isOpener, hopening] using isPlain_of_isBlank hc
    rw [List.append_assoc, List.cons_append] at htext
    obtain ⟨opening, hfound, hmem⟩ := exists_line_of_unlines hfeed h.feeds htext
    have hline : trimChars opening ≠ [] := fun hnil => hblank (trimChars_eq_nil_iff.mp hnil c hmem)
    exact ⟨opening, hfound, (h.isIndented hfound hline).indentation_eq⟩

theorem stack_after_of_openBehind (hfeeds : ∀ line ∈ earlier, '\n' ∉ line)
    (later : List (List Char)) (hopen : OpenBehind (unlines earlier) opens) :
    (Position.start.after earlier).stack =
      opens.map fun o => ⟨o.bracket, Position.start.lineLevel (earlier ++ later) o.line⟩ :=
  congrArg Reading.stack ((Position.start.read_unlines hfeeds later).symm.trans
    (Reading.read_of_openBehind _ hopen))

theorem scanBrackets_of_openBehind (hfeeds : ∀ line ∈ earlier, '\n' ∉ line)
    (later : List (List Char)) {blanks closers : List Char} (hblanks : ∀ c ∈ blanks, isBlank c)
    (hline : '\n' ∉ blanks ++ closers)
    (hopen : OpenBehind (unlines earlier ++ (blanks ++ closers)) opens) :
    scanBrackets (Position.start.lineLevel (earlier ++ later) earlier.length) .outside
        (Position.start.after earlier).stack closers =
      opens.map fun o => ⟨o.bracket, Position.start.lineLevel (earlier ++ later) o.line⟩ := by
  have hread := Reading.read_of_openBehind (Position.start.lineLevel (earlier ++ later)) hopen
  have hlines : (Reading.start []).read (Position.start.lineLevel (earlier ++ later))
      (unlines earlier) = ⟨.outside, earlier.length, (Position.start.after earlier).stack⟩ :=
    Position.start.read_unlines hfeeds later
  rw [Reading.read_append, hlines] at hread
  rw [← scanBrackets_blanks_append _ _ hblanks closers]
  exact (Reading.read_line _ _ hline).2.symm.trans (congrArg Reading.stack hread)

/-- The innermost bracket that is open behind a text has the given shape, and the line on which it
was opened has the given indentation. -/
def InnermostAt (lines : List (List Char)) (cs : List Char) (shape : Bracket) (indent : Nat) :
    Prop :=
  ∃ number outer opening, OpenBehind cs (⟨shape, number⟩ :: outer) ∧
    lines[number]? = some opening ∧ indentation opening = indent

inductive LinesUp (width : Nat) (lines : List (List Char)) (before line : List Char) : Nat → Prop
  /-- A line that starts with closing brackets stands where the last of them was opened. -/
  | closers {closers tail : List Char} {closer : Char} {shape : Bracket} {indent : Nat}
      (hline : line.dropWhile isBlank = closers ++ closer :: tail)
      (hclosers : ∀ c ∈ closers, isCloser c) (hclose : Bracket.closing? closer = some shape)
      (htail : ¬startsWithCloser tail)
      (hopen : InnermostAt lines (before ++ (line.takeWhile isBlank ++ closers)) shape indent) :
      LinesUp width lines before line indent
  | inside {shape : Bracket} {indent : Nat} (hstart : ¬startsWithCloser (line.dropWhile isBlank))
      (hopen : InnermostAt lines before shape indent) :
      LinesUp width lines before line (indent + width)
  | outermost (hstart : ¬startsWithCloser (line.dropWhile isBlank))
      (hopen : OpenBehind before []) : LinesUp width lines before line 0

theorem IsStable.innermostAt_iff (h : IsStable width lines) {cs rest : List Char}
    (htext : unlines lines = cs ++ rest) {indent : Nat} :
    InnermostAt lines cs shape indent ↔ ∃ number outer, OpenBehind cs (⟨shape, number⟩ :: outer) ∧
      indent = Position.start.lineLevel lines number * width := by
  constructor
  · rintro ⟨number, outer, opening, hopen, hget, rfl⟩
    obtain ⟨opening', hget', hindent⟩ := h.exists_opening htext hopen
    obtain rfl := Option.some.inj (hget.symm.trans hget')
    exact ⟨number, outer, hopen, hindent⟩
  · rintro ⟨number, outer, hopen, rfl⟩
    obtain ⟨opening, hget, hindent⟩ := h.exists_opening htext hopen
    exact ⟨number, outer, opening, hopen, hget, hindent⟩

theorem unlines_eq_of_dropWhile (earlier later : List (List Char)) {cs ds : List Char}
    (h : line.dropWhile isBlank = cs ++ ds) :
    unlines (earlier ++ line :: later) =
      (unlines earlier ++ (line.takeWhile isBlank ++ cs)) ++ (ds ++ '\n' :: unlines later) := by
  have hline : line = line.takeWhile isBlank ++ (cs ++ ds) := by
    rw [← h, List.takeWhile_append_dropWhile]
  rw [unlines_append, unlines_cons]
  conv_lhs => rw [hline]
  simp only [List.append_assoc, List.singleton_append]

theorem IsStable.level_closers (h : IsStable width (earlier ++ line :: later))
    (hline : trimChars line ≠ []) {closers tail : List Char} {closer : Char}
    (hshape : line.dropWhile isBlank = closers ++ closer :: tail)
    (hclosers : ∀ c ∈ closers, isCloser c) (hclose : Bracket.closing? closer = some shape)
    (htail : ¬startsWithCloser tail)
    (hopen : OpenBehind (unlines earlier ++ (line.takeWhile isBlank ++ closers))
      (⟨shape, number⟩ :: outer)) :
    (Position.start.after earlier).level (trimChars line) =
      Position.start.lineLevel (earlier ++ line :: later) number := by
  have hfeeds : ∀ line ∈ earlier, '\n' ∉ line := fun line' hmem =>
    h.feeds line' (List.mem_append_left _ hmem)
  have hfront : '\n' ∉ line.takeWhile isBlank ++ closers := by
    have hfeed : '\n' ∉ line := h.feeds line (List.mem_append_right _ List.mem_cons_self)
    rw [← List.takeWhile_append_dropWhile (p := isBlank) (l := line), hshape,
      ← List.append_assoc] at hfeed
    exact fun hmem => hfeed (List.mem_append_left _ hmem)
  have hstack := scanBrackets_of_openBehind hfeeds (line :: later)
    (fun _ hc => List.mem_takeWhile_imp hc) hfront hopen
  rw [Position.level, ← (h.isIndented_append hline).dropWhile_eq, hshape,
    closeLeading_closers hclosers hclose htail hstack]

theorem IsStable.indentation_eq_of_linesUp (h : IsStable width (earlier ++ line :: later))
    (hline : trimChars line ≠ []) {indent : Nat}
    (hup : LinesUp width (earlier ++ line :: later) (unlines earlier) line indent) :
    indentation line = indent := by
  have hindented := h.isIndented_append hline
  have hfeeds : ∀ line ∈ earlier, '\n' ∉ line := fun line' hmem =>
    h.feeds line' (List.mem_append_left _ hmem)
  have htext : unlines (earlier ++ line :: later) = unlines earlier ++ unlines (line :: later) :=
    unlines_append ..
  rw [hindented.indentation_eq, Position.lineLevel_append]
  cases hup with
  | @closers closers tail closer shape _ hshape hclosers hclose htail hopen =>
    have htext := unlines_eq_of_dropWhile earlier later hshape
    obtain ⟨number, outer, hbracket, rfl⟩ := (h.innermostAt_iff htext).mp hopen
    rw [h.level_closers hline hshape hclosers hclose htail hbracket]
  | @inside shape indent hstart hopen =>
    obtain ⟨number, outer, hbracket, rfl⟩ := (h.innermostAt_iff htext).mp hopen
    rw [Position.level, ← hindented.dropWhile_eq, closeLeading_of_not_startsWithCloser hstart,
      stack_after_of_openBehind hfeeds (line :: later) hbracket]
    exact Nat.succ_mul _ width
  | outermost hstart hopen =>
    rw [Position.level, ← hindented.dropWhile_eq, closeLeading_of_not_startsWithCloser hstart,
      stack_after_of_openBehind hfeeds (line :: later) hopen]
    exact Nat.zero_mul width

theorem IsStable.exists_linesUp (h : IsStable width (earlier ++ line :: later)) :
    ∃ indent, LinesUp width (earlier ++ line :: later) (unlines earlier) line indent := by
  by_cases hstart : startsWithCloser (line.dropWhile isBlank)
  · obtain ⟨closers, closer, shape, tail, hshape, hclosers, hclose, htail⟩ :=
      exists_leading_closers hstart
    have htext := unlines_eq_of_dropWhile earlier later hshape
    have hplain : ∀ c ∈ line.takeWhile isBlank, isPlain c := fun c hc =>
      isPlain_of_isBlank (List.mem_takeWhile_imp hc)
    have hcut : IsCut (unlines earlier)
        (line.takeWhile isBlank ++ (closers ++ closer :: (tail ++ '\n' :: unlines later))) := by
      refine isCut_unlines ?_
      have hnested := h.nested
      rw [htext] at hnested
      simpa only [List.append_assoc, List.cons_append] using hnested
    obtain ⟨⟨number, outer, hopen⟩, -⟩ :=
      ((hcut.move_plain hplain).move_closers hclosers).move_closer hclose
    rw [List.append_assoc] at hopen
    have hinnermost := (h.innermostAt_iff htext).mpr ⟨number, outer, hopen, rfl⟩
    exact ⟨_, .closers hshape hclosers hclose htail hinnermost⟩
  · have htext : unlines (earlier ++ line :: later) = unlines earlier ++ unlines (line :: later) :=
      unlines_append ..
    obtain ⟨opens, hopen, -⟩ := isCut_unlines (htext ▸ h.nested)
    cases opens with
    | nil => exact ⟨0, .outermost hstart hopen⟩
    | cons innermost outer =>
      have hinnermost := (h.innermostAt_iff htext).mpr ⟨innermost.line, outer, hopen, rfl⟩
      exact ⟨_, .inside hstart hinnermost⟩

/-- Behind a nested text no bracket is open, and in its layout every line that is not blank has
exactly the indentation at which it lines up with the brackets. -/
theorem linesUp_normalize {text : String} (hnested : Nested text.toList) (width : Nat) :
    (behind text).stack = [] ∧
    ∀ earlier line later,
      splitLines (normalize text width).toList = earlier ++ line :: later → trimChars line ≠ [] →
        ∀ indent, LinesUp width (splitLines (normalize text width).toList) (unlines earlier) line
          indent ↔ indentation line = indent := by
  refine ⟨?_, fun earlier line later hlines hline indent => ?_⟩
  · have hfeeds : ∀ line ∈ splitLines text.toList, '\n' ∉ line := fun _ h =>
      lineFeed_notMem_of_mem_splitLines h
    exact Position.stack_after_of_nested .start hfeeds hnested.unlines_splitLines
  · rcases isStable_normalize hnested width with hstable | hblank
    · rw [hlines] at hstable ⊢
      refine ⟨hstable.indentation_eq_of_linesUp hline, ?_⟩
      rintro rfl
      obtain ⟨indent, hup⟩ := hstable.exists_linesUp
      rwa [hstable.indentation_eq_of_linesUp hline hup]
    · -- An empty layout has no line but a blank one.
      have hmem : line ∈ [[]] := by
        rw [← hblank, hlines]
        exact List.mem_append_right _ List.mem_cons_self
      rw [List.mem_singleton.mp hmem] at hline
      exact absurd rfl hline

def callText : String :=
  "run('\x7b', \x7b\na\n\x7d, \x7b\n\nb\n\x7d)"

theorem nested_callText : Nested callText.toList := by
  have hword : Nested ['r', 'u', 'n'] := nested_of_isPlain (by decide)
  have hcomma : Nested [',', ' '] := nested_of_isPlain (by decide)
  have hbrace : Quoted '\'' ['\x7b'] := .of_all (by decide)
  have hquoted : Nested ['\'', '\x7b', '\''] := nested_quotes rfl hbrace
  have hfirst : Nested ['\x7b', '\n', 'a', '\n', '\x7d'] :=
    nested_brackets rfl rfl (nested_of_isPlain (by decide : ['\n', 'a', '\n'].all isPlain))
  have hsecond : Nested ['\x7b', '\n', '\n', 'b', '\n', '\x7d'] :=
    nested_brackets rfl rfl (nested_of_isPlain (by decide : ['\n', '\n', 'b', '\n'].all isPlain))
  have harguments := hquoted.append (hcomma.append (hfirst.append (hcomma.append hsecond)))
  have hcall : Nested ('(' :: (_ ++ [')'])) := nested_brackets rfl rfl harguments
  exact hword.append hcall

theorem linesUp_normalize_callText :
    LinesUp 2 (splitLines (normalize callText 2).toList)
      (unlines ["run('\x7b', \x7b".toList, "  a".toList]) "\x7d, \x7b".toList 0 :=
  ((linesUp_normalize nested_callText 2).2 _ _ ["  b".toList, "\x7d)".toList] (by decide +kernel)
    (by decide +kernel) 0).mpr (by decide +kernel)

end Alignment

end FlowScript.Layout
