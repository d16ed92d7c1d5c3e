import FlowScript.Proofs.Layout.Lines
import Mathlib.Data.List.Basic

/-! What a layout starts and ends with: no blanks, but for the line feed of its last line. Trimming
it and ending it again changes nothing. -/

namespace FlowScript

namespace Text

theorem dropTail_append_of_all {p : Char → Bool} (cs : List Char) {tail : List Char}
    (h : ∀ c ∈ tail, p c) : dropTail p (cs ++ tail) = dropTail p cs := by
  induction cs with
  | nil => exact dropTail_eq_nil_iff.mpr h
  | cons c cs ih => rw [List.cons_append, dropTail, dropTail, ih]

theorem dropTail_concat {p : Char → Bool} (cs : List Char) {c : Char} (h : p c = false) :
    dropTail p (cs ++ [c]) = cs ++ [c] := by
  induction cs with
  | nil => simp [dropTail, h]
  | cons d cs ih =>
    rw [List.cons_append, dropTail, ih]
    split
    · rename_i hnil
      exact absurd hnil (by simp)
    · rfl

theorem trimChars_append_of_blanks (cs : List Char) {tail : List Char}
    (h : ∀ c ∈ tail, isBlank c) : trimChars (cs ++ tail) = trimChars cs := by
  rw [trimChars, trimChars, List.dropWhile_append]
  split
  · rename_i hempty
    rw [List.isEmpty_iff.mp hempty, List.dropWhile_eq_nil_iff.mpr h]
  · exact dropTail_append_of_all _ h

theorem head?_trimChars {cs : List Char} {c : Char} (h : (trimChars cs).head? = some c) :
    isBlank c = false := by
  have hhead := List.head?_dropWhile_not isBlank (trimChars cs)
  rw [dropWhile_trimChars, h] at hhead
  simpa using hhead

theorem getLast?_trimChars {cs : List Char} {c : Char} (h : (trimChars cs).getLast? = some c) :
    isBlank c = false := by
  obtain ⟨front, hfront⟩ := List.getLast?_eq_some_iff.mp h
  cases hc : isBlank c with
  | false => rfl
  | true =>
    -- The last character would have been cut off.
    have hdrop : dropTail isBlank (trimChars cs) = trimChars cs := dropTail_dropTail isBlank _
    rw [hfront, dropTail_append_of_all front (by simpa using hc)] at hdrop
    obtain ⟨tail, hsplit, -⟩ := exists_eq_dropTail_append isBlank front
    have hlength := congrArg List.length hsplit
    rw [hdrop] at hlength
    simp at hlength

theorem trimChars_eq_self {cs : List Char} (hhead : ∀ c, cs.head? = some c → isBlank c = false)
    (hlast : ∀ c, cs.getLast? = some c → isBlank c = false) : trimChars cs = cs := by
  have hdrop : cs.dropWhile isBlank = cs := by
    cases cs with
    | nil => rfl
    | cons c cs => rw [List.dropWhile_cons_of_neg (by simp [hhead c rfl])]
  rw [trimChars, hdrop]
  rcases List.eq_nil_or_concat cs with rfl | ⟨front, last, rfl⟩
  · rfl
  · rw [List.concat_eq_append] at hlast ⊢
    exact dropTail_concat front (hlast last List.getLast?_concat)

end Text

namespace Layout

open Text

namespace Position

theorem head?_entries (pos : Position) (hstack : pos.stack = []) (hprevious : pos.previous = none)
    (hgap : pos.gap = false) (lines : List (List Char)) :
    pos.entries lines = [] ∨ ∃ raw, trimChars raw ≠ [] ∧
      (pos.entries lines).head? = some (.line 0 (trimChars raw)) := by
  induction lines generalizing pos with
  | nil => exact .inl rfl
  | cons raw rest ih =>
    rw [entries_cons]
    by_cases htrim : trimChars raw = []
    · rw [pos.step_of_blank htrim, List.nil_append]
      exact ih _ hstack hprevious (by simp [hprevious])
    · refine .inr ⟨raw, htrim, ?_⟩
      have hkeeps : pos.keepsGap (trimChars raw) = false := by simp [keepsGap, hgap]
      have hlevel := level_of_stack_eq_nil hstack (trimChars raw)
      rw [pos.step_of_ne_nil htrim, entries_place, hkeeps, hlevel]
      rfl

theorem getLast?_entries (pos : Position) (lines : List (List Char)) :
    pos.entries lines = [] ∨ ∃ level raw, trimChars raw ≠ [] ∧
      (pos.entries lines).getLast? = some (.line level (trimChars raw)) := by
  induction lines generalizing pos with
  | nil => exact .inl rfl
  | cons raw rest ih =>
    rw [entries_cons]
    rcases ih (pos.step raw).2 with hnil | ⟨level, last, hlast, hentries⟩
    · rw [hnil, List.append_nil]
      by_cases htrim : trimChars raw = []
      · exact .inl (by rw [pos.step_of_blank htrim])
      · refine .inr ⟨pos.level (trimChars raw), raw, htrim, ?_⟩
        rw [pos.step_of_ne_nil htrim, entries_place, List.getLast?_concat]
    · exact .inr ⟨level, last, hlast, by rw [List.getLast?_append, hentries]; rfl⟩

end Position

theorem exists_write_eq (width : Nat) (cs : List Char) :
    ∃ body, write width (entries cs) = body ++ ['\n'] ∧ trimChars body = body := by
  rcases write_eq width (entries cs) with hwrite | ⟨-, hwrite⟩
  case inr => exact ⟨[], hwrite, rfl⟩
  rcases Position.start.getLast?_entries (splitLines cs) with hnil | ⟨level, last, hlast, hend⟩
  case inl => exact ⟨[], by rw [entries, hnil]; rfl, rfl⟩
  rcases Position.start.head?_entries rfl rfl rfl (splitLines cs) with
    hnil | ⟨first, hfirst, hhead⟩
  case inl => rw [hnil] at hend; cases hend
  obtain ⟨init, hinit⟩ := List.getLast?_eq_some_iff.mp hend
  obtain ⟨rest, hrest⟩ := List.head?_eq_some_iff.mp hhead
  have hends : write width (entries cs) =
      (unlines (init.map (Entry.text width)) ++ List.replicate (level * width) ' ' ++
        trimChars last) ++ ['\n'] := by
    rw [hwrite, entries, hinit, List.map_append, unlines_append]
    simp [unlines, Entry.text]
  have hstarts : write width (entries cs) =
      trimChars first ++ '\n' :: unlines (rest.map (Entry.text width)) := by
    rw [hwrite, entries, hrest]
    simp [unlines, Entry.text]
  refine ⟨_, hends, trimChars_eq_self (fun c hc => ?_) (fun c hc => ?_)⟩
  · have hsame := congrArg List.head? (hends.symm.trans hstarts)
    rw [List.head?_append, hc, List.head?_append] at hsame
    have hword : (trimChars first).head? = some c := by
      cases hchars : trimChars first with
      | nil => exact absurd hchars hfirst
      | cons d ds =>
        rw [hchars] at hsame
        exact hsame.symm
    exact head?_trimChars hword
  · rw [List.getLast?_append_of_ne_nil _ hlast] at hc
    exact getLast?_trimChars hc

/-- Writing a layout, which trims it and ends its last line, writes it as it is. -/
theorem trim_normalize (text : String) (width : Nat) :
    Text.trim (normalize text width) ++ "\n" = normalize text width := by
  obtain ⟨body, hwrite, hbody⟩ := exists_write_eq width text.toList
  have hfeed : ∀ c ∈ ['\n'], isBlank c := List.forall_mem_singleton.mpr (by decide)
  have htrim : Text.trim (normalize text width) = String.ofList body := by
    rw [normalize, hwrite, Text.trim, String.toList_ofList, trimChars_append_of_blanks body hfeed,
      hbody]
  have htext : normalize text width = String.ofList body ++ String.ofList ['\n'] := by
    rw [normalize, hwrite, String.ofList_append]
  have hline : String.ofList ['\n'] = "\n" := by simp
  rw [htrim, htext, hline]

end Layout

end FlowScript
