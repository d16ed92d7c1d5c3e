import FlowScript.Compile.Endpoint
import FlowScript.Proofs.Text.Identifier

/-! Path tokens of an endpoint: where they stand, and what filling makes of them in any monad. -/

namespace FlowScript.Endpoint

open Text

/-- The text that takes the place of a piece once a missing parameter is accepted. -/
def replacement (params : List Pair) : Piece → List Char
  | .text cs => cs
  | .token name =>
    match param? params (String.ofList name) with
    | some value => value.plainText.toList
    | none => ':' :: name

def missing? (params : List Pair) : Piece → Option String
  | .text _ => none
  | .token name =>
    match param? params (String.ofList name) with
    | some _ => none
    | none => some (String.ofList name)

def filled (endpoint : String) (params : List Pair) : String :=
  String.ofList ((pieces endpoint.toList).flatMap (replacement params))

def missingTokens (endpoint : String) (params : List Pair) : List String :=
  (pieces endpoint.toList).filterMap (missing? params)

section Monad

variable {m : Type → Type} [Monad m] [LawfulMonad m]

theorem fillPieces_eq (params : List Pair) (onMissing : String → m Unit) (all : List Piece) :
    fillPieces params onMissing all = do
      (all.filterMap (missing? params)).forM onMissing
      return all.flatMap (replacement params) := by
  induction all with
  | nil => simp [fillPieces]
  | cons piece rest ih =>
    rw [fillPieces, ih]
    cases piece with
    | text cs => simp [fillPiece, List.filterMap_cons, missing?, replacement]
    | token name =>
      cases h : param? params (String.ofList name) with
      | none => simp [fillPiece, missing?, replacement, h]
      | some value => simp [fillPiece, missing?, replacement, h]

theorem fill_eq (endpoint : String) (params : List Pair) (onMissing : String → m Unit) :
    fill endpoint params onMissing = do
      (missingTokens endpoint params).forM onMissing
      return filled endpoint params := by
  simp [fill, fillPieces_eq, missingTokens, filled]

end Monad

theorem flatMap_spelling_pieces (cs : List Char) : (pieces cs).flatMap Piece.spelling = cs := by
  fun_induction pieces cs with
  | case1 => rfl
  | case2 cs hnil ih => rw [List.flatMap_cons, ih]; rfl
  | case3 cs hnil ih =>
    rw [List.flatMap_cons, ih, Piece.spelling, List.cons_append,
      leadingIdent_append_afterIdent]
  | case4 c cs hc ih =>
    rw [List.flatMap_cons, ih, Piece.spelling, List.cons_append, List.takeWhile_append_dropWhile]

/-- A colon followed by a longest identifier, with the texts in front of both and behind. -/
def IsToken (name cs : List Char) : Prop :=
  ∃ before after, cs = before ++ ':' :: (name ++ after) ∧ isIdentChars name ∧
    after.head?.any isIdentPart = false

theorem isToken_colon {name cs : List Char} :
    IsToken name (':' :: cs) ↔
      (leadingIdent cs ≠ [] ∧ name = leadingIdent cs) ∨ IsToken name cs := by
  constructor
  · rintro ⟨before, after, hcs, hname, hafter⟩
    cases before with
    | nil =>
      obtain rfl : cs = name ++ after := by simpa using hcs
      rw [leadingIdent_append hname hafter]
      exact .inl ⟨ne_nil_of_isIdentChars hname, rfl⟩
    | cons b before =>
      exact .inr ⟨before, after, (List.cons.inj hcs).2, hname, hafter⟩
  · rintro (⟨hne, rfl⟩ | ⟨before, after, rfl, hname, hafter⟩)
    · refine ⟨[], afterIdent cs, ?_, isIdentChars_leadingIdent hne, head?_afterIdent hne⟩
      simp [leadingIdent_append_afterIdent]
    · exact ⟨':' :: before, after, rfl, hname, hafter⟩

theorem isToken_append {p : List Char} (hp : ':' ∉ p) (name cs : List Char) :
    IsToken name (p ++ cs) ↔ IsToken name cs := by
  constructor
  · rintro ⟨before, after, hcs, hname, hafter⟩
    rcases List.append_eq_append_iff.mp hcs with ⟨q, rfl, rfl⟩ | ⟨q, rfl, hq⟩
    · exact ⟨q, after, rfl, hname, hafter⟩
    · cases q with
      | nil => exact ⟨[], after, by simpa using hq.symm, hname, hafter⟩
      | cons d q =>
        obtain rfl : ':' = d := (List.cons.inj hq).1
        simp at hp
  · rintro ⟨before, after, rfl, hname, hafter⟩
    exact ⟨p ++ before, after, by simp, hname, hafter⟩

theorem colon_notMem_leadingIdent (cs : List Char) : ':' ∉ leadingIdent cs := by
  cases cs with
  | nil => simp [leadingIdent]
  | cons c cs =>
    by_cases hc : isIdentStart c
    · simp only [leadingIdent, hc, if_true, List.mem_cons, not_or]
      refine ⟨?_, fun h => ?_⟩
      · rintro rfl
        exact absurd hc (by decide)
      · exact absurd (List.mem_takeWhile_imp h) (by decide)
    · simp [leadingIdent, hc]

theorem token_mem_pieces_iff (name cs : List Char) :
    Piece.token name ∈ pieces cs ↔ IsToken name cs := by
  fun_induction pieces cs with
  | case1 => simp [IsToken]
  | case2 cs hnil ih =>
    simp [isToken_colon, hnil, ih]
  | case3 cs hnil ih =>
    have hne : leadingIdent cs ≠ [] := hnil
    have hrest : IsToken name cs ↔ IsToken name (afterIdent cs) := by
      have h := isToken_append (colon_notMem_leadingIdent cs) name (afterIdent cs)
      rwa [leadingIdent_append_afterIdent] at h
    simp [isToken_colon, hne, ih, hrest]
  -- A text piece runs up to the next colon, so no token starts in it.
  | case4 c cs hc ih =>
    have hp : ':' ∉ c :: cs.takeWhile (· != ':') := by
      rintro (_ | ⟨_, h⟩)
      · exact hc rfl
      · exact absurd (List.mem_takeWhile_imp h) (by decide)
    have hsplit := isToken_append hp name (cs.dropWhile (· != ':'))
    rw [List.cons_append, List.takeWhile_append_dropWhile] at hsplit
    simp [ih, hsplit]

theorem missingTokens_eq_nil_iff (endpoint : String) (params : List Pair) :
    missingTokens endpoint params = [] ↔
      ∀ name, IsToken name endpoint.toList → ∃ pair ∈ params, pair.key = String.ofList name := by
  have hmissing (name : List Char) : missing? params (.token name) = none ↔
      ∃ pair ∈ params, pair.key = String.ofList name := by
    cases h : param? params (String.ofList name) with
    | none =>
      simp only [missing?, h, reduceCtorEq, false_iff, not_exists, not_and]
      simpa [param?] using h
    | some value =>
      simp only [missing?, h, true_iff]
      obtain ⟨pair, hpair, -⟩ := Option.map_eq_some_iff.mp h
      exact ⟨pair, List.mem_of_find?_eq_some hpair, by simpa using List.find?_some hpair⟩
  simp only [missingTokens, List.filterMap_eq_nil_iff, ← hmissing, ← token_mem_pieces_iff]
  constructor
  · intro h name hname
    exact h _ hname
  · intro h piece hpiece
    cases piece with
    | text cs => rfl
    | token name => exact h name hpiece

end FlowScript.Endpoint
