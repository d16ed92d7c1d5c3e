import FlowScript.Flow.StepRef
import Mathlib.Data.List.Nodup
import Std.Data.String.ToNat

/-! The path of a step determines the step, and so does the name of its result. No two steps of a flow
have the same place. -/

namespace FlowScript

theorem takeWhile_isDigit_toString (n : Nat) {rest : List Char}
    (h : rest.head?.any Char.isDigit = false) :
    ((toString n).toList ++ rest).takeWhile Char.isDigit = (toString n).toList := by
  have hdigits : ∀ c ∈ (toString n).toList, c.isDigit := by
    intro c hc
    rw [Nat.toString_eq_repr, Nat.toList_repr] at hc
    exact Nat.isDigit_of_mem_toDigits (by decide) (by decide) hc
  rw [List.takeWhile_append_of_pos hdigits]
  cases rest with
  | nil => simp
  | cons c cs =>
    have hc : c.isDigit = false := by simpa using h
    simp [hc]

theorem toString_append_inj {m n : Nat} {xs ys : List Char}
    (hx : xs.head?.any Char.isDigit = false) (hy : ys.head?.any Char.isDigit = false)
    (h : (toString m).toList ++ xs = (toString n).toList ++ ys) : m = n ∧ xs = ys := by
  have hdigits := congrArg (List.takeWhile Char.isDigit) h
  rw [takeWhile_isDigit_toString m hx, takeWhile_isDigit_toString n hy] at hdigits
  rw [hdigits] at h
  exact ⟨Nat.repr_injective (String.toList_inj.mp hdigits), List.append_cancel_left h⟩

namespace StepRef

theorem display_injective {a b : StepRef} (h : a.display = b.display) : a = b := by
  have hlist := congrArg String.toList h
  cases a <;> cases b <;>
    simp only [display, String.toList_append, List.append_assoc] at hlist
  case precondition.precondition i j =>
    have hindex := toString_append_inj (by simp) (by simp) (List.append_cancel_left hlist)
    rw [hindex.1]
  case postcondition.postcondition i j =>
    have hindex := toString_append_inj (by simp) (by simp) (List.append_cancel_left hlist)
    rw [hindex.1]
  case item.item g s g' s' =>
    obtain ⟨hgroup, hrest⟩ :=
      toString_append_inj (by simp) (by simp) (List.append_cancel_left hlist)
    have hstep := toString_append_inj (by simp) (by simp) (List.append_cancel_left hrest)
    rw [hgroup, hstep.1]
  all_goals simp at hlist

/-- Steps in different places keep their results in different constants. A number in the name of a
constant ends where the underscore or the name ends. -/
theorem resultVar_injective : Function.Injective resultVar := by
  intro a b h
  have hlist := congrArg String.toList h
  cases a <;> cases b <;>
    simp only [resultVar, String.toList_append, List.append_assoc] at hlist
  case precondition.precondition i j =>
    have hindex := String.toList_inj.mp (List.append_cancel_left hlist)
    rw [Nat.repr_injective hindex]
  case postcondition.postcondition i j =>
    have hindex := String.toList_inj.mp (List.append_cancel_left hlist)
    rw [Nat.repr_injective hindex]
  case precondition.item i g s =>
    rw [← List.append_nil (toString i).toList] at hlist
    have hend := toString_append_inj (by simp) (by simp) (List.append_cancel_left hlist)
    simp at hend
  case item.precondition g s i =>
    rw [← List.append_nil (toString i).toList] at hlist
    have hend := toString_append_inj (by simp) (by simp) (List.append_cancel_left hlist)
    simp at hend
  case item.item g s g' s' =>
    obtain ⟨hgroup, hrest⟩ :=
      toString_append_inj (by simp) (by simp) (List.append_cancel_left hlist)
    have hstep := String.toList_inj.mp (List.append_cancel_left hrest)
    rw [hgroup, Nat.repr_injective hstep]
  all_goals simp at hlist

end StepRef

section Places

variable {α β σ : Type}

theorem pairwise_zipIdx (xs : List α) : xs.zipIdx.Pairwise fun a b => a.2 ≠ b.2 := by
  have hindices : (xs.zipIdx.map Prod.snd).Nodup := by simp [List.nodup_range']
  exact List.pairwise_map.mp hindices

theorem nodup_map_zipIdx {place : Nat → σ} (h : Function.Injective place) (xs : List α) :
    (xs.zipIdx.map fun entry => place entry.2).Nodup := by
  rw [List.Nodup, List.pairwise_map]
  exact (pairwise_zipIdx xs).imp fun hne heq => hne (h heq)

theorem disjoint_map {f : α → σ} {g : β → σ} (h : ∀ a b, f a ≠ g b) (xs : List α) (ys : List β) :
    (xs.map f).Disjoint (ys.map g) := by
  intro place hf hg
  obtain ⟨a, _, rfl⟩ := List.mem_map.mp hf
  obtain ⟨b, _, heq⟩ := List.mem_map.mp hg
  exact h a b heq.symm

theorem StepRef.nodup_places (pre post : List α) (groups : List β) (steps : β → List α) :
    ((pre.zipIdx.map fun step => precondition step.2) ++
      (post.zipIdx.map fun step => postcondition step.2) ++
      groups.zipIdx.flatMap fun group =>
        (steps group.1).zipIdx.map fun step => item group.2 step.2).Nodup := by
  have hpre := nodup_map_zipIdx (fun _ _ heq => precondition.inj heq) pre
  have hpost := nodup_map_zipIdx (fun _ _ heq => postcondition.inj heq) post
  have hitems : (groups.zipIdx.flatMap fun group =>
      (steps group.1).zipIdx.map fun step => item group.2 step.2).Nodup := by
    refine List.nodup_flatMap.mpr ⟨fun group _ => ?_, (pairwise_zipIdx _).imp fun hne => ?_⟩
    · exact nodup_map_zipIdx (fun _ _ heq => (item.inj heq).2) _
    · exact disjoint_map (fun _ _ heq => hne (item.inj heq).1) _ _
  refine (hpre.append hpost ?_).append hitems ?_
  · exact disjoint_map (fun _ _ heq => StepRef.noConfusion heq) _ _
  · intro ref hlist hitem
    obtain ⟨group, _, hstep⟩ := List.mem_flatMap.mp hitem
    obtain ⟨step, _, rfl⟩ := List.mem_map.mp hstep
    simp at hlist

end Places

end FlowScript
