import FlowScript.Proofs.Compile.Reads
import FlowScript.Proofs.Template.Content
import FlowScript.Proofs.Template.Tokens

/-! The conditions of checks. A path is read for placeholders before the expected value is put in,
so the value is text in the condition whatever dollar signs it holds, and wherever it stands. -/

namespace FlowScript.Check

open Template

def codeTokens (check : Check) : List Token :=
  (scan (check.path.getD "")).map fun token =>
    if token = .var expectedValue then .text check.value.compact else token

theorem condition_eq_ofTokens (check : Check) :
    check.condition = ofTokens checkParam check.codeTokens empty := rfl

def tokenAtoms (check : Check) : Token → List Atom
  | .text s => textAtoms s
  | .bare => textAtoms checkParam
  | .var name => if name = expectedValue then textAtoms check.value.compact else [.var name]

theorem atoms_condition (check : Check) :
    check.condition.atoms = (scan (check.path.getD "")).flatMap check.tokenAtoms := by
  have htoken (token : Token) :
      segmentAtoms ((if token = .var expectedValue then Token.text check.value.compact
        else token).segment checkParam) = check.tokenAtoms token := by
    cases token with
    | text s => rfl
    | bare => rfl
    | var name =>
      by_cases hname : name = expectedValue
      · simp [hname, tokenAtoms, Token.segment, segmentAtoms]
      · simp [hname, tokenAtoms, Token.segment, segmentAtoms]
  rw [condition_eq_ofTokens, atoms_ofTokens, codeTokens, List.flatMap_map]
  simp only [htoken]
  rfl

theorem isNormal_condition (check : Check) : check.condition.IsNormal := by
  rw [condition_eq_ofTokens]
  exact isNormal_empty.ofTokens checkParam check.codeTokens

/-- The condition of a check is the one template in normal form that holds what the tokens of the
path stand for, one after the other. Its variables are the placeholders of the path but those of the
expected value. -/
theorem condition_substitutes (check : Check) :
    ∃ tokens, (∀ reading, ReadAs (check.path.getD "").toList reading ↔ reading = tokens) ∧
      (∀ t, t = check.condition ↔ t.IsNormal ∧ t.atoms = tokens.flatMap check.tokenAtoms) ∧
      check.condition.varNames = (tokens.filterMap Token.name?).filter (· ≠ expectedValue) := by
  refine ⟨scan (check.path.getD ""), fun reading => ⟨ReadAs.eq_scanChars, ?_⟩, fun t => ⟨?_, ?_⟩,
    check.varNames_condition⟩
  · rintro rfl
    exact readAs_scanChars _
  · rintro rfl
    exact ⟨check.isNormal_condition, check.atoms_condition⟩
  · rintro ⟨hnormal, hatoms⟩
    apply hnormal.eq_of_atoms_eq check.isNormal_condition
    rw [hatoms, check.atoms_condition]

example :
    (⟨none, some "$$$\x7bvalue\x7did === $\x7bowner\x7d", .string "$user"⟩ : Check).condition =
      ⟨[.text "$\"$user\"id === ", .var "owner"]⟩ := by
  decide +kernel

end FlowScript.Check
