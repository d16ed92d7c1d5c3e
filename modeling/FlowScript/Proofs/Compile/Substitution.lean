import FlowScript.Error
import FlowScript.Proofs.Compile.PathTokens
import FlowScript.Proofs.Text.UpTo
import Mathlib.Data.List.Forall2

/-! Filling an endpoint as one substitution. An endpoint is made of pieces in one way only, each piece
gives its text once, and the tokens without a parameter are reported in order until a report fails. -/

namespace FlowScript.Endpoint

open Text

section Pieces

/-- How a piece of an endpoint ends in front of what stands behind it. Text runs up to the next
colon, a colon that no name follows is text by itself, and a token takes all that goes on with its
name. -/
inductive Piece.EndsAt : Piece → List Char → Prop where
  | text {cs behind : List Char} (hne : cs ≠ []) (hplain : ':' ∉ cs)
      (hstop : ∀ c ∈ behind.head?, c = ':') : EndsAt (.text cs) behind
  | colon {behind : List Char} (hstop : ∀ c ∈ behind.head?, ¬IsLetter c) :
      EndsAt (.text [':']) behind
  | token {name behind : List Char} (hname : IsName (String.ofList name))
      (hstop : ∀ c ∈ behind.head?, ¬IsNamePart c) : EndsAt (.token name) behind

inductive MadeOf : List Char → List Piece → Prop where
  | nil : MadeOf [] []
  | cons {piece : Piece} {behind : List Char} {rest : List Piece} (hpiece : piece.EndsAt behind)
      (hrest : MadeOf behind rest) : MadeOf (piece.spelling ++ behind) (piece :: rest)

theorem pieces_colon_of_leadingIdent_eq_nil {cs : List Char} (h : leadingIdent cs = []) :
    pieces (':' :: cs) = .text [':'] :: pieces cs := by
  rw [pieces, if_pos rfl, h]

theorem pieces_colon_of_leadingIdent_ne_nil {cs : List Char} (h : leadingIdent cs ≠ []) :
    pieces (':' :: cs) = .token (leadingIdent cs) :: pieces (afterIdent cs) := by
  obtain ⟨c, name, hcons⟩ := List.exists_cons_of_ne_nil h
  rw [pieces, if_pos rfl, hcons]

theorem pieces_text {cs behind : List Char} (hne : cs ≠ []) (hplain : ':' ∉ cs)
    (hstop : ∀ c ∈ behind.head?, c = ':') :
    pieces (cs ++ behind) = .text cs :: pieces behind := by
  obtain ⟨c, cs, rfl⟩ := List.exists_cons_of_ne_nil hne
  obtain ⟨hc, hcs⟩ := List.ne_and_not_mem_of_not_mem_cons hplain
  rw [List.cons_append, pieces, if_neg (Ne.symm hc), takeWhile_ne_append hcs hstop,
    dropWhile_ne_append hcs hstop]

theorem pieces_of_endsAt {piece : Piece} {behind : List Char} (h : piece.EndsAt behind) :
    pieces (piece.spelling ++ behind) = piece :: pieces behind := by
  cases h with
  | text hne hplain hstop => exact pieces_text hne hplain hstop
  | colon hstop => exact pieces_colon_of_leadingIdent_eq_nil (leadingIdent_eq_nil_iff.mpr hstop)
  | @token name _ hname hstop =>
    have hchars := isName_ofList_iff.mp hname
    have hident := leadingIdent_append hchars (head?_any_isIdentPart_iff.mpr hstop)
    have hafter := afterIdent_append hchars (head?_any_isIdentPart_iff.mpr hstop)
    have hne : leadingIdent (name ++ behind) ≠ [] := by
      rw [hident]
      exact ne_nil_of_isIdentChars hchars
    have hpieces := pieces_colon_of_leadingIdent_ne_nil hne
    rwa [hident, hafter] at hpieces

theorem MadeOf.eq_pieces {cs : List Char} {all : List Piece} (h : MadeOf cs all) :
    all = pieces cs := by
  induction h with
  | nil => rw [pieces]
  | cons hpiece _ ih => rw [pieces_of_endsAt hpiece, ih]

theorem madeOf_pieces (cs : List Char) : MadeOf cs (pieces cs) := by
  fun_induction pieces cs with
  | case1 => exact .nil
  | case2 cs hnil ih => exact .cons (.colon (leadingIdent_eq_nil_iff.mp hnil)) ih
  | case3 cs hname ih =>
    have hpiece := Piece.EndsAt.token (isName_ofList_iff.mpr (isIdentChars_leadingIdent hname))
      (head?_any_isIdentPart_iff.mp (head?_afterIdent hname))
    have hmade := MadeOf.cons hpiece ih
    rwa [Piece.spelling, List.cons_append, leadingIdent_append_afterIdent] at hmade
  | case4 c cs hc ih =>
    have hplain : ':' ∉ c :: cs.takeWhile (· != ':') :=
      List.not_mem_cons_of_ne_of_not_mem (Ne.symm hc) (notMem_takeWhile_ne ':' cs)
    have hpiece := Piece.EndsAt.text (List.cons_ne_nil _ _) hplain (eq_of_head?_dropWhile_ne ':' cs)
    have hmade := MadeOf.cons hpiece ih
    rwa [Piece.spelling, List.cons_append, List.takeWhile_append_dropWhile] at hmade

end Pieces

section Texts

/-- The text that takes the place of a piece: of a token the value of the first parameter with its
name, if there is one. -/
inductive Piece.Gives (params : List Pair) : Piece → List Char → Prop where
  | text (cs : List Char) : Gives params (.text cs) cs
  | value {name : List Char} {before after : List Pair} {pair : Pair}
      (hparams : params = before ++ pair :: after)
      (hfirst : ∀ other ∈ before, other.key ≠ String.ofList name)
      (hkey : pair.key = String.ofList name) :
      Gives params (.token name) pair.value.plainText.toList
  | kept {name : List Char} (hnone : ∀ pair ∈ params, pair.key ≠ String.ofList name) :
      Gives params (.token name) (':' :: name)

def Piece.name? : Piece → Option String
  | .text _ => none
  | .token name => some (String.ofList name)

/-- The names of the tokens that no parameter has, in order and with repetitions. -/
def unmatched (params : List Pair) (all : List Piece) : List String :=
  (all.filterMap Piece.name?).filter fun name => params.all (·.key ≠ name)

variable {params : List Pair}

theorem param?_eq_none_iff {name : String} :
    param? params name = none ↔ ∀ pair ∈ params, pair.key ≠ name := by
  simp [param?]

theorem gives_replacement (piece : Piece) : piece.Gives params (replacement params piece) := by
  cases piece with
  | text cs => exact .text cs
  | token name =>
    rw [replacement]
    cases h : param? params (String.ofList name) with
    | none => exact .kept (param?_eq_none_iff.mp h)
    | some value =>
      obtain ⟨pair, hpair, rfl⟩ := Option.map_eq_some_iff.mp h
      obtain ⟨hkey, before, after, hparams, hfirst⟩ := List.find?_eq_some_iff_append.mp hpair
      exact .value hparams (fun other hother => by simpa using hfirst other hother)
        (by simpa using hkey)

theorem missing?_eq_filter (piece : Piece) :
    missing? params piece = piece.name?.filter fun name => params.all (·.key ≠ name) := by
  cases piece with
  | text cs => rfl
  | token name =>
    have hnone : param? params (String.ofList name) = none ↔ _ := param?_eq_none_iff
    rw [missing?, Piece.name?]
    cases h : param? params (String.ofList name) with
    | none => simpa [Option.filter] using hnone.mp h
    | some value => simpa [Option.filter, h] using hnone

theorem filterMap_missing? (all : List Piece) :
    all.filterMap (missing? params) = unmatched params all := by
  rw [unmatched, List.filter_filterMap]
  exact List.filterMap_congr fun piece _ => missing?_eq_filter piece

theorem Piece.Gives.eq_spelling {piece : Piece} {cs : List Char} (h : piece.Gives [] cs) :
    cs = piece.spelling := by
  cases h with
  | text cs => rfl
  | value hparams => exact absurd hparams.symm (List.append_ne_nil_of_right_ne_nil _ (by simp))
  | kept => rfl

end Texts

section Calls

variable {ε σ : Type} {callback : String → ExceptT ε (StateM σ) Unit}

/-- A callback is called for some names in order. The first call that fails is the last one. -/
inductive Calls (callback : String → ExceptT ε (StateM σ) Unit) :
    List String → σ → Except ε Unit → σ → Prop where
  | done (state : σ) : Calls callback [] state (.ok ()) state
  | next {name : String} {rest : List String} {before middle after : σ} {outcome : Except ε Unit}
      (hcall : (callback name).run.run before = (.ok (), middle))
      (hrest : Calls callback rest middle outcome after) :
      Calls callback (name :: rest) before outcome after
  | stop {name : String} {before after : σ} {error : ε}
      (hcall : (callback name).run.run before = (.error error, after)) (rest : List String) :
      Calls callback (name :: rest) before (.error error) after

theorem Calls.of_tolerant {names : List String} {start stop : σ} {outcome : Except ε Unit}
    (htolerant : ∀ name state, ((callback name).run.run state).1 = .ok ())
    (h : Calls callback names start outcome stop) : outcome = .ok () := by
  induction h with
  | done => rfl
  | next _ _ ih => exact ih
  | @stop name before _ _ hcall =>
    have hok := htolerant name before
    rw [hcall] at hok
    cases hok

theorem run_bind {α β : Type} (p : ExceptT ε (StateM σ) α) (f : α → ExceptT ε (StateM σ) β)
    (start : σ) : (p >>= f).run.run start =
      match p.run.run start with
      | (.ok a, middle) => (f a).run.run middle
      | (.error error, middle) => (.error error, middle) := by
  rw [ExceptT.run_bind, StateT.run_bind]
  rcases p.run.run start with ⟨error | a, middle⟩ <;> rfl

theorem exists_calls_forM {α : Type} (names : List String) (a : α) (start : σ) :
    ∃ outcome stop, Calls callback names start outcome stop ∧
      (names.forM callback >>= fun _ => pure a).run.run start = (outcome.map fun _ => a, stop) := by
  induction names generalizing start with
  | nil => exact ⟨.ok (), start, .done start, rfl⟩
  | cons name rest ih =>
    have hforM : (name :: rest).forM callback = callback name >>= fun _ => rest.forM callback := rfl
    rw [hforM, bind_assoc, run_bind]
    rcases hcall : (callback name).run.run start with ⟨error | ⟨⟩, middle⟩
    · exact ⟨.error error, middle, .stop hcall rest, rfl⟩
    · obtain ⟨outcome, stop, hcalls, hrest⟩ := ih middle
      exact ⟨outcome, stop, .next hcall hcalls, hrest⟩

end Calls

/-- An endpoint is made of pieces in one way only, and filling puts the texts of its pieces in their
places, once the callback has been called for every unmatched token in order. A call that fails
ends the filling. -/
theorem fill_substitutes (endpoint : String) (params : List Pair) :
    ∃ all parts, (∀ other, MadeOf endpoint.toList other ↔ other = all) ∧
      List.Forall₂ (Piece.Gives params) all parts ∧
      (∀ (ε σ : Type) (callback : String → ExceptT ε (StateM σ) Unit) (start : σ),
        ∃ outcome stop, Calls callback (unmatched params all) start outcome stop ∧
          (fill endpoint params callback).run.run start =
            (outcome.map fun _ => String.ofList parts.flatten, stop)) ∧
      (∀ (ε σ : Type) (callback : String → ExceptT ε (StateM σ) Unit) (start : σ),
        (∀ name state, ((callback name).run.run state).1 = .ok ()) →
          ((fill endpoint params callback).run.run start).1 =
            .ok (String.ofList parts.flatten)) ∧
      (params = [] → String.ofList parts.flatten = endpoint) := by
  have hruns (ε σ : Type) (callback : String → ExceptT ε (StateM σ) Unit) (start : σ) :
      ∃ outcome stop,
        Calls callback (unmatched params (pieces endpoint.toList)) start outcome stop ∧
          (fill endpoint params callback).run.run start =
            (outcome.map fun _ => filled endpoint params, stop) := by
    rw [fill_eq, missingTokens, filterMap_missing?]
    exact exists_calls_forM _ _ start
  refine ⟨pieces endpoint.toList, (pieces endpoint.toList).map (replacement params), ?_, ?_, hruns,
    ?_, ?_⟩
  · exact fun other => ⟨MadeOf.eq_pieces, fun h => h ▸ madeOf_pieces endpoint.toList⟩
  · rw [List.forall₂_map_right_iff, List.forall₂_same]
    exact fun piece _ => gives_replacement piece
  · intro ε σ callback start htolerant
    obtain ⟨outcome, stop, hcalls, hrun⟩ := hruns ε σ callback start
    rw [hrun, hcalls.of_tolerant htolerant]
    rfl
  · rintro rfl
    have hkept : replacement [] = Piece.spelling :=
      funext fun piece => (gives_replacement piece).eq_spelling
    rw [hkept, ← List.flatMap_def, flatMap_spelling_pieces, String.ofList_toList]

def note (name : String) : ExceptT CompileError (StateM (List String)) Unit :=
  modify (· ++ [name])

def crossedParams : List Pair :=
  [⟨"id", .string ":no"⟩, ⟨"id", .string "later"⟩, ⟨"idx", .null⟩]

theorem fill_substitutes_crossedParams :
    ∃ all parts, MadeOf "h:80/:id::idx/é:no:i:no".toList all ∧
      List.Forall₂ (Piece.Gives crossedParams) all parts ∧
      String.ofList parts.flatten = "h:80/:no:/é:no:i:no" ∧
      ((fill "h:80/:id::idx/é:no:i:no" crossedParams note).run.run []).2 = ["no", "i", "no"] := by
  obtain ⟨all, parts, hmade, hgives, -, htolerant, -⟩ :=
    fill_substitutes "h:80/:id::idx/é:no:i:no" crossedParams
  refine ⟨all, parts, (hmade all).mpr rfl, hgives, ?_, by decide +kernel⟩
  have hfilled := htolerant _ _ note [] fun _ _ => rfl
  have hrun : ((fill "h:80/:id::idx/é:no:i:no" crossedParams note).run.run []).1.toOption =
      some "h:80/:no:/é:no:i:no" := by decide +kernel
  rw [hfilled] at hrun
  exact Option.some.inj hrun

end FlowScript.Endpoint
