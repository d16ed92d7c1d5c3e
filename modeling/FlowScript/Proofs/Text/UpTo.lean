import Mathlib.Data.List.TakeWhile

/-! The characters of a text up to the first stop. -/

namespace FlowScript.Text

variable {stop : Char} {cs behind : List Char}

theorem takeWhile_ne_append (hplain : stop ∉ cs) (hstop : ∀ c ∈ behind.head?, c = stop) :
    (cs ++ behind).takeWhile (· != stop) = cs := by
  have hall : ∀ c ∈ cs, (c != stop) = true := fun c hc => by
    simpa using ne_of_mem_of_not_mem hc hplain
  have hnil : behind.takeWhile (· != stop) = [] := by
    cases behind with
    | nil => rfl
    | cons c rest => simp [hstop c rfl]
  rw [List.takeWhile_append_of_pos hall, hnil, List.append_nil]

theorem dropWhile_ne_append (hplain : stop ∉ cs) (hstop : ∀ c ∈ behind.head?, c = stop) :
    (cs ++ behind).dropWhile (· != stop) = behind := by
  have hsplit := (cs ++ behind).takeWhile_append_dropWhile (p := (· != stop))
  rw [takeWhile_ne_append hplain hstop] at hsplit
  exact List.append_cancel_left hsplit

theorem notMem_takeWhile_ne (stop : Char) (cs : List Char) : stop ∉ cs.takeWhile (· != stop) :=
  fun hmem => absurd (List.mem_takeWhile_imp hmem) (by simp)

theorem eq_of_head?_dropWhile_ne (stop : Char) (cs : List Char) :
    ∀ c ∈ (cs.dropWhile (· != stop)).head?, c = stop := by
  intro c hc
  have hnot := List.head?_dropWhile_not (· != stop) cs
  rw [Option.mem_def.mp hc] at hnot
  simpa using hnot

end FlowScript.Text
