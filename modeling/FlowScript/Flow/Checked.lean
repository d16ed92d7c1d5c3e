import FlowScript.Error

/-!
Results of validation. A value is accepted, or it is rejected with all its violations. Parts are
combined without losing a violation: the violations of a whole are those of its parts, in order.
-/

namespace FlowScript

inductive Checked (α : Type) where
  | accepted (value : α)
  | rejected (first : CompileError) (others : List CompileError)

namespace Checked

variable {α β : Type}

def violations : Checked α → List CompileError
  | .accepted _ => []
  | .rejected first others => first :: others

def map (f : α → β) : Checked α → Checked β
  | .accepted a => .accepted (f a)
  | .rejected first others => .rejected first others

def seq : Checked (α → β) → Checked α → Checked β
  | .accepted f, a => a.map f
  | .rejected first others, a => .rejected first (others ++ a.violations)

instance : Applicative Checked where
  pure := .accepted
  seq f a := f.seq (a ())

def reject (violation : CompileError) : Checked α :=
  .rejected violation []

def ensure (condition : Bool) (violation : CompileError) (value : α) : Checked α :=
  if condition then .accepted value else reject violation

def require (violation : CompileError) : Option α → Checked α
  | some value => .accepted value
  | none => reject violation

def eachFrom (check : Nat → α → Checked β) : Nat → List α → Checked (List β)
  | _, [] => .accepted []
  | index, a :: rest => List.cons <$> check index a <*> eachFrom check (index + 1) rest

def each (check : Nat → α → Checked β) (list : List α) : Checked (List β) :=
  eachFrom check 0 list

def whenSome (check : α → Checked β) : Option α → Checked (Option β)
  | none => .accepted none
  | some a => some <$> check a

/-- A single violation is reported by itself, several are collected. -/
def toExcept : Checked α → Except CompileError α
  | .accepted value => .ok value
  | .rejected first [] => .error first
  | .rejected first others => .error (.invalidDescriptor (first :: others))

@[simp] theorem violations_map (f : α → β) (a : Checked α) :
    (a.map f).violations = a.violations := by
  cases a <;> rfl

@[simp] theorem violations_seq (f : Checked (α → β)) (a : Checked α) :
    (f.seq a).violations = f.violations ++ a.violations := by
  cases f with
  | accepted f => exact violations_map f a
  | rejected first others => simp [seq, violations]

end Checked

end FlowScript
