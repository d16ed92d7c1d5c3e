import FlowScript.Flow.Checked
import Mathlib.Data.List.Forall2

/-! What combined checks accept and what they report. A whole is accepted exactly if its parts are,
and its report is that of its parts, one after the other. -/

namespace FlowScript.Checked

variable {α β : Type}

@[simp] theorem map_eq (f : α → β) (a : Checked α) : f <$> a = a.map f :=
  rfl

@[simp] theorem seq_eq (f : Checked (α → β)) (a : Checked α) : f <*> a = f.seq a :=
  rfl

section Accepted

theorem violations_eq_nil_iff {a : Checked α} :
    a.violations = [] ↔ ∃ value, a = .accepted value := by
  cases a with
  | accepted value => simp [violations]
  | rejected first others => simp [violations]

@[simp] theorem map_eq_accepted_iff {f : α → β} {a : Checked α} {b : β} :
    a.map f = .accepted b ↔ ∃ value, a = .accepted value ∧ f value = b := by
  cases a with
  | accepted value => simp [map]
  | rejected first others => simp [map]

@[simp] theorem seq_eq_accepted_iff {f : Checked (α → β)} {a : Checked α} {b : β} :
    f.seq a = .accepted b ↔
      ∃ g, f = .accepted g ∧ ∃ value, a = .accepted value ∧ g value = b := by
  cases f with
  | accepted g => simp [seq]
  | rejected first others => simp [seq]

@[simp] theorem ensure_eq_accepted_iff {condition : Bool} {violation : CompileError} {a b : α} :
    ensure condition violation a = .accepted b ↔ a = b ∧ condition := by
  cases condition <;> simp [ensure, reject]

@[simp] theorem require_eq_accepted_iff {violation : CompileError} {a : Option α} {b : α} :
    require violation a = .accepted b ↔ a = some b := by
  cases a <;> simp [require, reject]

theorem whenSome_eq_accepted_iff {check : α → Checked β} {R : α → β → Prop} {p : β → Prop}
    (h : ∀ a b, check a = .accepted b ↔ R a b ∧ p b) {a : Option α} {b : Option β} :
    whenSome check a = .accepted b ↔ Option.Rel R a b ∧ ∀ value ∈ b, p value := by
  cases a with
  | none => cases b <;> simp [whenSome]
  | some a => cases b <;> simp [whenSome, h]

theorem eachFrom_eq_accepted_iff {check : Nat → α → Checked β} {R : α → β → Prop} {p : β → Prop}
    (h : ∀ index a b, check index a = .accepted b ↔ R a b ∧ p b) {index : Nat} {xs : List α}
    {ys : List β} :
    eachFrom check index xs = .accepted ys ↔ List.Forall₂ R xs ys ∧ ∀ b ∈ ys, p b := by
  induction xs generalizing index ys with
  | nil => cases ys <;> simp [eachFrom]
  | cons a rest ih =>
    rw [eachFrom, seq_eq, seq_eq_accepted_iff]
    simp only [map_eq, map_eq_accepted_iff, h, ih]
    constructor
    · rintro ⟨_, ⟨b, ⟨hR, hp⟩, rfl⟩, bs, ⟨hRs, hps⟩, rfl⟩
      exact ⟨.cons hR hRs, List.forall_mem_cons.mpr ⟨hp, hps⟩⟩
    · rintro ⟨hall, hps⟩
      obtain ⟨b, bs, hR, hRs, rfl⟩ := List.forall₂_cons_left_iff.mp hall
      obtain ⟨hp, hps⟩ := List.forall_mem_cons.mp hps
      exact ⟨_, ⟨b, ⟨hR, hp⟩, rfl⟩, bs, ⟨hRs, hps⟩, rfl⟩

theorem each_eq_accepted_iff {check : Nat → α → Checked β} {R : α → β → Prop} {p : β → Prop}
    (h : ∀ index a b, check index a = .accepted b ↔ R a b ∧ p b) {xs : List α} {ys : List β} :
    each check xs = .accepted ys ↔ List.Forall₂ R xs ys ∧ ∀ b ∈ ys, p b :=
  eachFrom_eq_accepted_iff h

theorem each_eq_accepted_map_iff {check : Nat → α → Checked β} {f : α → β} {p : β → Prop}
    (h : ∀ index a b, check index a = .accepted b ↔ f a = b ∧ p b) {xs : List α} {ys : List β} :
    each check xs = .accepted ys ↔ xs.map f = ys ∧ ∀ b ∈ ys, p b := by
  rw [each_eq_accepted_iff h, ← List.forall₂_eq_eq_eq, List.forall₂_map_left_iff]

theorem each_eq_accepted_self_iff {check : Nat → α → Checked α} {p : α → Prop}
    (h : ∀ index a b, check index a = .accepted b ↔ a = b ∧ p b) {xs ys : List α} :
    each check xs = .accepted ys ↔ xs = ys ∧ ∀ b ∈ ys, p b := by
  rw [each_eq_accepted_map_iff h, List.map_id']

end Accepted

section Violations

@[simp] theorem violations_accepted (a : α) : (accepted a).violations = [] :=
  rfl

@[simp] theorem violations_reject (violation : CompileError) :
    (reject violation : Checked α).violations = [violation] :=
  rfl

theorem violations_ensure (condition : Bool) (violation : CompileError) (a : α) :
    (ensure condition violation a).violations = if condition then [] else [violation] := by
  cases condition <;> rfl

theorem violations_require (violation : CompileError) (a : Option α) :
    (require violation a).violations = if a.isSome then [] else [violation] := by
  cases a <;> rfl

theorem violations_whenSome (check : α → Checked β) (a : Option α) :
    (whenSome check a).violations = a.toList.flatMap fun a => (check a).violations := by
  cases a with
  | none => rfl
  | some a => simp [whenSome]

theorem violations_eachFrom (check : Nat → α → Checked β) (index : Nat) (xs : List α) :
    (eachFrom check index xs).violations =
      (xs.zipIdx index).flatMap fun entry => (check entry.2 entry.1).violations := by
  induction xs generalizing index with
  | nil => rfl
  | cons a rest ih =>
    rw [eachFrom, seq_eq, violations_seq, map_eq, violations_map, ih, List.zipIdx_cons,
      List.flatMap_cons]

theorem violations_each (check : Nat → α → Checked β) (xs : List α) :
    (each check xs).violations =
      xs.zipIdx.flatMap fun entry => (check entry.2 entry.1).violations :=
  violations_eachFrom check 0 xs

theorem violations_each_eq_nil_iff {check : Nat → α → Checked β} {p : α → Prop}
    (h : ∀ index a, (check index a).violations = [] ↔ p a) {xs : List α} :
    (each check xs).violations = [] ↔ ∀ a ∈ xs, p a := by
  have hfst : (∀ a ∈ xs.zipIdx.map Prod.fst, p a) ↔ ∀ entry ∈ xs.zipIdx, p entry.1 :=
    List.forall_mem_map
  rw [List.zipIdx_map_fst] at hfst
  rw [violations_each, List.flatMap_eq_nil_iff, hfst]
  simp only [h]

theorem violations_whenSome_eq_nil_iff {check : α → Checked β} {p : α → Prop}
    (h : ∀ a, (check a).violations = [] ↔ p a) {a : Option α} :
    (whenSome check a).violations = [] ↔ ∀ value ∈ a, p value := by
  rw [violations_whenSome, List.flatMap_eq_nil_iff]
  simp only [h, Option.mem_toList, Option.mem_def]

end Violations

end FlowScript.Checked
