import FlowScript.Proofs.Layout.Nesting
import FlowScript.Proofs.Layout.Relayout
import Mathlib.Data.List.Induction

/-! The brackets that the layout has open behind a line, and behind lines whose text is nested. -/

namespace FlowScript.Layout

open Text (trimChars unlines splitLines)

theorem isPlain_of_isBlank {c : Char} (hc : Text.isBlank c) : isPlain c :=
  isPlain_of_class (by decide) hc

section Line

variable (level : Nat) (state : QuoteState) (stack : List Open)

theorem scanBrackets_blanks {blanks : List Char} (hblanks : ∀ c ∈ blanks, Text.isBlank c) :
    scanBrackets level state stack blanks = stack := by
  induction blanks generalizing state with
  | nil => rfl
  | cons c blanks ih =>
    obtain ⟨hc, hblanks⟩ := List.forall_mem_cons.mp hblanks
    have hplain := stackAfter_of_isPlain (isPlain_of_isBlank hc) level stack
    cases state with
    | outside =>
      show scanBrackets level _ (stackAfter level stack c) blanks = stack
      rw [hplain]
      exact ih _ hblanks
    | inside quote => exact ih _ hblanks
    | escaped quote => exact ih _ hblanks

theorem scanBrackets_append_blanks (cs : List Char) {blanks : List Char}
    (hblanks : ∀ c ∈ blanks, Text.isBlank c) :
    scanBrackets level state stack (cs ++ blanks) = scanBrackets level state stack cs := by
  induction cs generalizing state stack with
  | nil => exact scanBrackets_blanks level state stack hblanks
  | cons c cs ih => cases state <;> exact ih _ _

theorem scanBrackets_blanks_append {blanks : List Char}
    (hblanks : ∀ c ∈ blanks, Text.isBlank c) (cs : List Char) :
    scanBrackets level .outside stack (blanks ++ cs) = scanBrackets level .outside stack cs := by
  induction blanks with
  | nil => rfl
  | cons c blanks ih =>
    obtain ⟨hc, hblanks⟩ := List.forall_mem_cons.mp hblanks
    have hplain := isPlain_of_isBlank hc
    show scanBrackets level (QuoteState.outside.next c) (stackAfter level stack c) _ = _
    rw [next_of_isPlain hplain, stackAfter_of_isPlain hplain]
    exact ih hblanks

theorem scanBrackets_trimChars (cs : List Char) :
    scanBrackets level .outside stack (trimChars cs) = scanBrackets level .outside stack cs := by
  obtain ⟨before, after, hcs, hbefore, hafter⟩ := Text.exists_eq_blanks_append_trimChars cs
  have hscan : scanBrackets level .outside stack (before ++ (trimChars cs ++ after)) =
      scanBrackets level .outside stack (trimChars cs) := by
    rw [scanBrackets_blanks_append level stack hbefore,
      scanBrackets_append_blanks level .outside stack _ hafter]
  rw [← hscan, ← hcs]

theorem scanBrackets_closeLeading (line : List Char) (inner : Nat) :
    scanBrackets level .outside (closeLeading line inner stack).2 (line.dropWhile isCloser) =
      scanBrackets level .outside stack line := by
  induction line generalizing inner stack with
  | nil => rfl
  | cons c cs ih =>
    cases hclose : Bracket.closing? c with
    | none =>
      rw [closeLeading, hclose, List.dropWhile_cons_of_neg (by simp [isCloser, hclose])]
    | some shape =>
      have hscan : scanBrackets level .outside stack (c :: cs) =
          scanBrackets level .outside (((close? shape stack).map Prod.snd).getD stack) cs := by
        rcases closing?_cases hclose with ⟨rfl, rfl⟩ | ⟨rfl, rfl⟩ | ⟨rfl, rfl⟩ <;> rfl
      rw [List.dropWhile_cons_of_pos (by simp [isCloser, hclose]), hscan, closeLeading, hclose]
      dsimp only
      cases close? shape stack with
      | none => exact ih stack inner
      | some popped => exact ih popped.2 popped.1.level

end Line

namespace Position

theorem stack_step (pos : Position) (raw : List Char) :
    (pos.step raw).2.stack =
      scanBrackets (pos.level (trimChars raw)) .outside pos.stack raw := by
  rw [← scanBrackets_trimChars]
  by_cases htrim : trimChars raw = []
  · rw [step_of_blank pos htrim, htrim]
    rfl
  · rw [step_of_ne_nil pos htrim]
    exact scanBrackets_closeLeading _ pos.stack (trimChars raw) (innerLevel pos.stack)

/-- The level of a line of a text that stands behind a position. -/
def lineLevel (pos : Position) (lines : List (List Char)) (number : Nat) : Nat :=
  (pos.after (lines.take number)).level (trimChars (lines.getD number []))

theorem lineLevel_append (pos : Position) (earlier : List (List Char)) (line : List Char)
    (later : List (List Char)) :
    pos.lineLevel (earlier ++ line :: later) earlier.length =
      (pos.after earlier).level (trimChars line) := by
  simp [lineLevel]

theorem read_unlines (pos : Position) {earlier : List (List Char)}
    (hfeeds : ∀ line ∈ earlier, '\n' ∉ line) (later : List (List Char)) :
    (Reading.start pos.stack).read (pos.lineLevel (earlier ++ later)) (unlines earlier) =
      ⟨.outside, earlier.length, (pos.after earlier).stack⟩ := by
  induction earlier using List.reverseRecOn generalizing later with
  | nil => rfl
  | append_singleton earlier line ih =>
    obtain ⟨hearlier, hlast⟩ := List.forall_mem_append.mp hfeeds
    have hline := Reading.read_line (pos.lineLevel (earlier ++ line :: later))
      ⟨.outside, earlier.length, (pos.after earlier).stack⟩ (hlast line List.mem_cons_self)
    rw [List.append_assoc, List.singleton_append, Text.unlines_concat, Reading.read_append,
      ih hearlier, Reading.read_append, Reading.read_cons, Reading.next_lineFeed, hline.1, hline.2,
      lineLevel_append, ← stack_step, after_append, List.length_append]
    rfl

theorem stack_after_of_nested (pos : Position) {lines : List (List Char)}
    (hlines : ∀ line ∈ lines, '\n' ∉ line) (hnested : Nested (unlines lines)) :
    (pos.after lines).stack = pos.stack := by
  have hread := pos.read_unlines hlines []
  rw [Reading.start, Reading.read_nested hnested] at hread
  exact (congrArg Reading.stack hread).symm

theorem find?_text_of_stack_eq_nil (width : Nat) {pos : Position} (hstack : pos.stack = [])
    (lines : List (List Char)) :
    ((pos.entries lines).map (Entry.text width)).find? (· ≠ []) =
      ((lines.map trimChars).filter (· ≠ [])).head? := by
  induction lines generalizing pos with
  | nil => rfl
  | cons raw rest ih =>
    rw [entries_cons, List.map_cons]
    by_cases htrim : trimChars raw = []
    · rw [step_of_blank pos htrim, List.nil_append, List.filter_cons_of_neg (by simp [htrim])]
      exact ih hstack
    · rw [step_of_ne_nil pos htrim, entries_place, level_of_stack_eq_nil hstack,
        List.filter_cons_of_pos (by simp [htrim])]
      split <;> simp [Entry.text, htrim]

theorem stack_step_opening {pos : Position} (hstack : pos.stack = []) {opener : Char}
    {shape : Bracket} (hopen : Bracket.opening? opener = some shape) {head : List Char}
    (hnested : Nested head) (hhead : '\n' ∉ head) :
    (pos.step (head ++ [opener])).2.stack = [⟨shape, 0⟩] := by
  have hfeed := ne_lineFeed_of_opening hopen
  have hline : '\n' ∉ head ++ [opener] := by
    simpa [hhead] using Ne.symm hfeed
  -- The line is at the outermost level, so all that it opens is opened there.
  have hread := (Reading.read_line (fun _ => 0) (.start []) hline).2
  rw [Reading.read_append, Reading.start, Reading.read_nested hnested, Reading.read_cons,
    Reading.next_outside hfeed, stackAfter_opening hopen] at hread
  rw [stack_step, hstack, level_of_stack_eq_nil hstack]
  exact hread.symm

theorem step_closing {pos : Position} {level : Nat} (hstack : pos.stack = [⟨.brace, level⟩]) :
    pos.step ['\x7d'] = ([.line level ['\x7d']], ⟨[], some ['\x7d'], false⟩) := by
  obtain ⟨stack, previous, gap⟩ := pos
  obtain rfl : stack = [⟨.brace, level⟩] := hstack
  cases gap <;> rfl

theorem getLast?_entries_block {pos : Position} (hstack : pos.stack = []) {head : List Char}
    (hnested : Nested head) (hhead : '\n' ∉ head) {body : List (List Char)}
    (hlines : ∀ line ∈ body, '\n' ∉ line) (hbody : Nested (unlines body)) :
    (pos.entries ((head ++ ['\x7b']) :: (body ++ [['\x7d']]))).getLast? =
      some (.line 0 ['\x7d']) := by
  have hinside := stack_after_of_nested (pos.step (head ++ ['\x7b'])).2 hlines hbody
  rw [stack_step_opening hstack rfl hnested hhead] at hinside
  rw [entries_cons, entries_append, entries_cons, step_closing hinside]
  simp [entries]

end Position

def behind (text : String) : Position :=
  Position.start.after (splitLines text.toList)

/-- The lines that the layout makes of a text which stands behind another one. -/
def placed (width : Nat) (earlier own : String) : List (List Char) :=
  ((behind earlier).entries (splitLines own.toList)).map (Entry.text width)

/-- A text in front of which and behind which no bracket is open. -/
structure Freestanding (width : Nat) (earlier own later : String) : Prop where
  lines : normalize (earlier ++ own ++ later) width = String.ofList (['\n'].intercalate
    (placed width "" earlier ++ placed width earlier own ++ placed width (earlier ++ own) later) ++
      ['\n'])
  closed_before : (behind earlier).stack = []
  closed_behind : (behind (earlier ++ own)).stack = []
  first : (placed width earlier own).find? (· ≠ []) = (contentLines own).head?

section Freestanding

variable {earlier own : String}

theorem behind_append (hearlier : Text.IsEnded earlier.toList) (own : String) :
    behind (earlier ++ own) = (behind earlier).after (splitLines own.toList) := by
  rw [behind, String.toList_append, Text.splitLines_append hearlier, Position.after_append]
  rfl

theorem stack_behind_of_nested {text : String} (hended : Text.IsEnded text.toList)
    (hnested : Nested text.toList) : (behind text).stack = [] := by
  refine Position.stack_after_of_nested .start ?_ (hended.symm ▸ hnested)
  exact fun _ h => Text.lineFeed_notMem_of_mem_splitLines h

theorem normalize_append (width : Nat) (hended : Text.IsEnded earlier.toList)
    (hended' : Text.IsEnded own.toList) (later : String) :
    normalize (earlier ++ own ++ later) width = String.ofList (['\n'].intercalate
      (placed width "" earlier ++ placed width earlier own ++
        placed width (earlier ++ own) later) ++ ['\n']) := by
  have hlines : splitLines (earlier ++ own ++ later).toList =
      splitLines earlier.toList ++ splitLines own.toList ++ splitLines later.toList := by
    rw [String.toList_append, Text.splitLines_append (by simpa using hended.append hended'),
      String.toList_append, Text.splitLines_append hended]
  rw [normalize, write, entries, hlines, Position.entries_append, Position.entries_append,
    List.map_append, List.map_append, placed, placed, placed, behind_append hended,
    Position.after_append]
  rfl

theorem freestanding_of_nested (width : Nat) (hended : Text.IsEnded earlier.toList)
    (hnested : Nested earlier.toList) (hended' : Text.IsEnded own.toList)
    (hnested' : Nested own.toList) (later : String) : Freestanding width earlier own later := by
  have hclosed : (behind earlier).stack = [] := stack_behind_of_nested hended hnested
  have hclosed' : (behind (earlier ++ own)).stack = [] := by
    refine stack_behind_of_nested ?_ ?_
    · simpa using hended.append hended'
    · rw [String.toList_append]
      exact hnested.append hnested'
  exact ⟨normalize_append width hended hended' later, hclosed, hclosed',
    Position.find?_text_of_stack_eq_nil width hclosed _⟩

end Freestanding

end FlowScript.Layout
