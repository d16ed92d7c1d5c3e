import FlowScript.Proofs.Layout.Lines

/-! Laying a text out again gives the layout at the new width. What a layout has done to the lines
and the blank lines of a text, another one does in the same way. -/

namespace FlowScript.Layout

open Text

/-- The trimmed lines of a text that are not blank. -/
def contentLines (text : String) : List (List Char) :=
  ((splitLines text.toList).map trimChars).filter (· ≠ [])

variable (width : Nat)

theorem trimChars_text_line (level : Nat) (raw : List Char) :
    trimChars (Entry.text width (.line level (trimChars raw))) = trimChars raw :=
  trimChars_append_trimChars (fun _ hc => isBlank_of_mem_replicate hc) raw

theorem lineFeed_notMem_text (level : Nat) {raw : List Char} (hraw : '\n' ∉ raw) :
    '\n' ∉ Entry.text width (.line level (trimChars raw)) := by
  intro hmem
  rcases List.mem_append.mp hmem with h | h
  · exact absurd (List.eq_of_mem_replicate h) (by decide)
  · exact hraw (trimChars_subset raw h)

namespace Position

theorem entries_placed {pos : Position} (hgap : pos.gap → pos.previous.isSome) (raw : List Char)
    (hraw : trimChars raw ≠ []) (rest : List (List Char)) :
    entries { pos with gap := false }
        ((pos.place (trimChars raw)).1.map (Entry.text width) ++ rest) =
      (pos.place (trimChars raw)).1 ++ (pos.place (trimChars raw)).2.entries rest := by
  have hline (other : Position) :
      other.entries (Entry.text width (.line (pos.level (trimChars raw)) (trimChars raw)) :: rest) =
        (other.place (trimChars raw)).1 ++ (other.place (trimChars raw)).2.entries rest := by
    have htrim := trimChars_text_line width (pos.level (trimChars raw)) raw
    rw [entries_cons, step_of_ne_nil other (by rwa [htrim]), htrim]
  rw [entries_place]
  by_cases hkeeps : pos.keepsGap (trimChars raw)
  · have hopen : pos.gap = true := by
      unfold keepsGap at hkeeps
      simp only [Bool.and_eq_true] at hkeeps
      exact hkeeps.1.1
    -- The blank line brings the gap back.
    have hblank : step { pos with gap := false } (Entry.text width .blank) = ([], pos) := by
      rw [step_of_blank _ rfl, hgap hopen, ← hopen]
    rw [if_pos hkeeps, List.singleton_append, List.map_cons, List.map_singleton, List.cons_append,
      List.singleton_append, entries_cons, hblank, List.nil_append, hline, entries_place,
      if_pos hkeeps, List.singleton_append]
  · have hkeeps' : ¬keepsGap { pos with gap := false } (trimChars raw) := by
      simp [keepsGap]
    rw [if_neg hkeeps, List.nil_append, List.map_singleton, List.singleton_append, hline,
      entries_place, if_neg hkeeps', List.nil_append]
    rfl

theorem entries_relaid (pos : Position) (hgap : pos.gap → pos.previous.isSome)
    (lines : List (List Char)) :
    entries { pos with gap := false } ((pos.entries lines).map (Entry.text width)) =
      pos.entries lines := by
  induction lines generalizing pos with
  | nil => rfl
  | cons raw rest ih =>
    rw [entries_cons]
    by_cases htrim : trimChars raw = []
    · rw [step_of_blank pos htrim, List.nil_append]
      exact ih { pos with gap := pos.previous.isSome } id
    · rw [step_of_ne_nil pos htrim, List.map_append, entries_placed width hgap raw htrim]
      have hnext := ih (pos.place (trimChars raw)).2 fun h => absurd h Bool.false_ne_true
      exact congrArg _ hnext

end Position

theorem lineFeed_notMem_entries (pos : Position) {lines : List (List Char)}
    (hlines : ∀ line ∈ lines, '\n' ∉ line) :
    ∀ line ∈ (pos.entries lines).map (Entry.text width), '\n' ∉ line := by
  induction lines generalizing pos with
  | nil => exact List.forall_mem_nil _
  | cons raw rest ih =>
    obtain ⟨hraw, hrest⟩ := List.forall_mem_cons.mp hlines
    rw [Position.entries_cons, List.map_append]
    refine List.forall_mem_append.mpr ⟨?_, ih _ hrest⟩
    by_cases htrim : trimChars raw = []
    · rw [pos.step_of_blank htrim]
      exact List.forall_mem_nil _
    · rw [pos.step_of_ne_nil htrim, Position.entries_place, List.map_append]
      refine List.forall_mem_append.mpr ⟨?_, ?_⟩
      · split <;> simp [Entry.text]
      · simpa using lineFeed_notMem_text width _ hraw

theorem filter_trimChars_entries (pos : Position) (lines : List (List Char)) :
    (((pos.entries lines).map (Entry.text width)).map trimChars).filter (· ≠ []) =
      (lines.map trimChars).filter (· ≠ []) := by
  induction lines generalizing pos with
  | nil => rfl
  | cons raw rest ih =>
    rw [Position.entries_cons]
    simp only [List.map_append, List.filter_append, ih, List.map_cons]
    by_cases htrim : trimChars raw = []
    · rw [pos.step_of_blank htrim]
      simp [htrim]
    · have hblank : trimChars (Entry.text width .blank) = [] := rfl
      rw [pos.step_of_ne_nil htrim, Position.entries_place]
      split <;> simp [hblank, trimChars_text_line, htrim]

theorem splitLines_write (cs : List Char) :
    splitLines (write width (entries cs)) = (entries cs).map (Entry.text width) ∨
      (entries cs = [] ∧ splitLines (write width (entries cs)) = [[]]) := by
  have hfeeds : ∀ line ∈ (entries cs).map (Entry.text width), '\n' ∉ line :=
    lineFeed_notMem_entries width .start fun _ h => lineFeed_notMem_of_mem_splitLines h
  rcases write_eq width (entries cs) with hwrite | ⟨hnil, hwrite⟩
  · rw [hwrite, splitLines_unlines hfeeds]
    exact .inl rfl
  · exact .inr ⟨hnil, by rw [hwrite]; rfl⟩

theorem entries_write (cs : List Char) : entries (write width (entries cs)) = entries cs := by
  show Position.start.entries (splitLines (write width (entries cs))) = entries cs
  rcases splitLines_write width cs with hlines | ⟨hnil, hlines⟩
  · rw [hlines]
    exact Position.entries_relaid width .start (fun h => absurd h Bool.false_ne_true) _
  · rw [hlines, hnil]
    rfl

/-- Laying a text out twice is laying it out once, at the last width, and no layout changes what the
lines of the text hold. -/
theorem normalize_normalize (text : String) (w₁ w₂ : Nat) :
    normalize (normalize text w₁) w₂ = normalize text w₂ ∧
      contentLines (normalize text w₁) = contentLines text := by
  refine ⟨?_, ?_⟩
  · rw [normalize, normalize, String.toList_ofList, entries_write, normalize]
  · have hcontent : (((entries text.toList).map (Entry.text w₁)).map trimChars).filter (· ≠ []) =
        contentLines text := filter_trimChars_entries w₁ .start _
    rw [contentLines, normalize, String.toList_ofList, ← hcontent]
    rcases splitLines_write w₁ text.toList with hlines | ⟨hnil, hlines⟩
    · rw [hlines]
    · rw [hlines, hnil]
      rfl

end FlowScript.Layout
