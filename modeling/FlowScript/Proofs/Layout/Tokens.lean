import FlowScript.Proofs.Layout.Lines
import FlowScript.Proofs.Reader.Lexer

/-!
The layout keeps the tokens of every text. A line that is read to its end leaves nothing open, and
blank characters around a line leave no trace.
-/

namespace FlowScript

namespace Reader

variable (bag : String)

theorem run_blanks (tokens : List Token) {cs : List Char} (hcs : ∀ c ∈ cs, Text.isBlank c) :
    run bag ⟨tokens, .between⟩ cs = some ⟨tokens, .between⟩ := by
  induction cs with
  | nil => rfl
  | cons c cs ih =>
    have hstep : step bag ⟨tokens, .between⟩ c = some ⟨tokens, .between⟩ :=
      stepBetween_of_isBlank tokens (hcs c (List.mem_cons_self ..))
    rw [run_cons_of_some bag hstep]
    exact ih fun d hd => hcs d (List.mem_cons_of_mem _ hd)

theorem step_lineFeed (lexer : Lexer) :
    step bag lexer '\n' = none ∨ ∃ tokens, step bag lexer '\n' = some ⟨tokens, .between⟩ := by
  obtain ⟨tokens, mode⟩ := lexer
  have hbreak : ∀ mode, mode.isLiteral → step bag ⟨tokens, mode⟩ '\n' = none :=
    fun _ hmode => step_of_isLineBreak bag rfl hmode
  cases mode with
  | between => exact .inr ⟨tokens, rfl⟩
  | word read => exact .inr ⟨tokens ++ [.word (String.ofList read)], rfl⟩
  | inside quote t => exact .inl (hbreak _ rfl)
  | escape quote t => exact .inl (hbreak _ rfl)
  | dollar t => exact .inl (hbreak _ rfl)
  | interpolation t code => exact .inl (hbreak _ rfl)

theorem unescaped?_of_isBlank (quote : Quote) {c : Char} (hc : Text.isBlank c) :
    unescaped? quote c = none := by
  have hquote : c ≠ quote.char := ne_of_isBlank hc (by cases quote <;> decide)
  have hne := fun d => @ne_of_isBlank c d hc
  simp [unescaped?, hquote, hne '\\' (by decide), hne 'n' (by decide), hne 'r' (by decide),
    hne 't' (by decide), hne '$' (by decide)]

theorem stepInside_of_isBlank (tokens : List Token) (quote : Quote) (t : Template) {c : Char}
    (hc : Text.isBlank c) :
    stepInside tokens quote t c = none ∨ ∃ u, stepInside tokens quote t c =
      some ⟨tokens, .inside quote u⟩ := by
  have hquote : c ≠ quote.char := ne_of_isBlank hc (by cases quote <;> decide)
  have hslash : c ≠ '\\' := ne_of_isBlank hc (by decide)
  have hdollar : c ≠ '$' := ne_of_isBlank hc (by decide)
  rw [stepInside, if_neg hquote, if_neg hslash]
  by_cases hbreak : isLineBreak c
  · exact .inl (if_pos hbreak)
  · exact .inr ⟨_, by rw [if_neg hbreak, if_neg fun h => hdollar h.1]⟩

theorem step_blank_lineFeed (lexer : Lexer) {c : Char} (hc : Text.isBlank c) :
    (step bag lexer c).bind (step bag · '\n') = step bag lexer '\n' := by
  obtain ⟨tokens, mode⟩ := lexer
  cases mode with
  | between =>
    show (stepBetween tokens c).bind _ = _
    rw [stepBetween_of_isBlank tokens hc, Option.bind_some]
  | word read =>
    have hstep : step bag ⟨tokens, .word read⟩ c =
        some ⟨tokens ++ [.word (String.ofList read)], .between⟩ := by
      simp only [step, isKeyPart_of_isBlank hc]
      exact stepBetween_of_isBlank _ hc
    rw [hstep]
    rfl
  | inside quote t =>
    show (stepInside tokens quote t c).bind _ = _
    rcases stepInside_of_isBlank tokens quote t hc with h | ⟨u, h⟩ <;> rw [h] <;>
      cases quote <;> rfl
  | escape quote t =>
    simp only [step, unescaped?_of_isBlank quote hc]
    cases quote <;> rfl
  | dollar t =>
    have hbrace : c ≠ '\x7b' := ne_of_isBlank hc (by decide)
    simp only [step, if_neg hbrace]
    rcases stepInside_of_isBlank tokens .back (t.pushText "$") hc with h | ⟨u, h⟩ <;> rw [h] <;> rfl
  | interpolation t code =>
    have hbrace : c ≠ '\x7d' := ne_of_isBlank hc (by decide)
    simp only [step, if_neg hbrace]
    split <;> rfl

theorem run_blanks_lineFeed (lexer : Lexer) {cs : List Char} (hcs : ∀ c ∈ cs, Text.isBlank c) :
    run bag lexer (cs ++ ['\n']) = step bag lexer '\n' := by
  induction cs generalizing lexer with
  | nil => exact run_singleton bag lexer '\n'
  | cons c cs ih =>
    have hrest := fun next => ih next fun d hd => hcs d (List.mem_cons_of_mem _ hd)
    rw [List.cons_append, run_cons]
    simp only [hrest]
    exact step_blank_lineFeed bag lexer (hcs c (List.mem_cons_self ..))

theorem run_line_trimChars (tokens : List Token) {indent : List Char}
    (hindent : ∀ c ∈ indent, Text.isBlank c) (line : List Char) :
    run bag ⟨tokens, .between⟩ (indent ++ Text.trimChars line ++ ['\n']) =
      run bag ⟨tokens, .between⟩ (line ++ ['\n']) := by
  obtain ⟨before, after, hline, hbefore, hafter⟩ := Text.exists_eq_blanks_append_trimChars line
  -- Both sides read the trimmed line from the same state; what differs is blank.
  have hleft : run bag ⟨tokens, .between⟩ (indent ++ Text.trimChars line ++ ['\n']) =
      (run bag ⟨tokens, .between⟩ (Text.trimChars line)).bind (step bag · '\n') := by
    rw [List.append_assoc, run_append_of_some bag (run_blanks bag tokens hindent), run_append]
    simp only [run_singleton]
  have hright : run bag ⟨tokens, .between⟩ (before ++ (Text.trimChars line ++ after) ++ ['\n']) =
      (run bag ⟨tokens, .between⟩ (Text.trimChars line)).bind (step bag · '\n') := by
    rw [List.append_assoc, run_append_of_some bag (run_blanks bag tokens hbefore),
      List.append_assoc, run_append]
    simp only [run_blanks_lineFeed bag _ hafter]
  rw [hleft, ← hright, ← hline]

theorem run_line_cases (lexer : Lexer) (line : List Char) :
    run bag lexer (line ++ ['\n']) = none ∨
      ∃ tokens, run bag lexer (line ++ ['\n']) = some ⟨tokens, .between⟩ := by
  rw [run_append]
  simp only [run_singleton]
  cases run bag lexer line with
  | none => exact .inl rfl
  | some next => exact step_lineFeed bag next

theorem run_line_append_congr {lexer : Lexer} {line line' rest rest' : List Char}
    (hline : run bag lexer (line ++ ['\n']) = run bag lexer (line' ++ ['\n']))
    (hrest : ∀ tokens, run bag ⟨tokens, .between⟩ rest = run bag ⟨tokens, .between⟩ rest') :
    run bag lexer ((line ++ ['\n']) ++ rest) = run bag lexer ((line' ++ ['\n']) ++ rest') := by
  rw [run_append bag lexer (line ++ ['\n']), run_append bag lexer (line' ++ ['\n']), hline]
  rcases run_line_cases bag lexer line' with h | ⟨tokens, h⟩
  · rw [h]
    rfl
  · rw [h]
    exact hrest tokens

theorem run_unlines_lineFeed (tokens : List Token) (lines : List (List Char)) :
    run bag ⟨tokens, .between⟩ (Text.unlines lines ++ ['\n']) =
      run bag ⟨tokens, .between⟩ (Text.unlines lines) := by
  induction lines generalizing tokens with
  | nil => rfl
  | cons line lines ih =>
    rw [Text.unlines_cons, List.append_assoc]
    exact run_line_append_congr bag rfl ih

end Reader

namespace Layout

open Text (unlines)

variable (bag : String)

open Reader

theorem run_entries (width : Nat) (pos : Position) (tokens : List Token)
    (lines : List (List Char)) :
    run bag ⟨tokens, .between⟩ (unlines ((pos.entries lines).map (Entry.text width))) =
      run bag ⟨tokens, .between⟩ (unlines lines) := by
  induction lines generalizing pos tokens with
  | nil => rfl
  | cons raw rest ih =>
    rw [Text.unlines_cons, Position.entries]
    cases htrim : Text.trimChars raw with
    | nil =>
      -- A line is dropped if nothing is left of it, so it had no tokens.
      have hraw := run_line_trimChars bag tokens (List.forall_mem_nil _) raw
      rw [htrim] at hraw
      rw [run_append_of_some bag hraw.symm]
      exact ih _ tokens
    | cons c cs =>
      obtain ⟨gap, indent, hgap, hindent, hplace⟩ := unlines_place width pos (c :: cs)
      rw [List.map_append, Text.unlines_append, hplace, List.append_assoc,
        run_append_of_some bag (run_blanks bag tokens hgap), ← htrim]
      exact run_line_append_congr bag (run_line_trimChars bag tokens hindent raw) fun next =>
        ih _ next

theorem run_write (width : Nat) (tokens : List Token) (lines : List (List Char)) :
    run bag ⟨tokens, .between⟩ (write width (Position.start.entries lines) ++ ['\n']) =
      run bag ⟨tokens, .between⟩ (unlines lines) := by
  rw [← run_entries bag width Position.start]
  rcases write_eq width (Position.start.entries lines) with h | ⟨hnil, h⟩
  · rw [h, run_unlines_lineFeed]
  · rw [h, hnil]
    rfl

/-- The layout keeps the tokens of a text, whatever the text holds. -/
theorem lex_normalize (text : String) (width : Nat) :
    lex bag (normalize text width) = lex bag text := by
  rw [lex, lex, normalize, String.toList_ofList, entries, run_write]
  rcases Text.unlines_splitLines text.toList with h | h
  · rw [← run_unlines_lineFeed, h]
  · rw [h]

end Layout

end FlowScript
