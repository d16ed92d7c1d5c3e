import FlowScript.Proofs.Compile.Substitution
import FlowScript.Proofs.Positions.Slices
import Mathlib.Control.Lawful

/-! Path tokens filled by their positions. The length of a name is counted in characters and used as
a number of bytes. A name goes on only through characters of one byte, so both are the same. -/

namespace FlowScript.Positions

open Text Endpoint

def charsFrom : Nat → List Char → List (Nat × Char)
  | _, [] => []
  | pos, c :: cs => (pos, c) :: charsFrom (pos + c.utf8Size) cs

def find? (c : Char) (s : String) : Option Nat :=
  ((charsFrom 0 s.toList).find? (·.2 = c)).map (·.1)

def countName (s : String) : Nat :=
  ((charsFrom 0 s.toList).takeWhile fun (pos, c) =>
    if pos = 0 then isIdentStart c else isIdentPart c).length

variable {m : Type → Type} [Monad m]

def tokenText (params : List Pair) (onMissing : String → m Unit) (token : String) : m String :=
  match param? params token with
  | some value => pure value.plainText
  | none => do
    onMissing token
    return ":" ++ token

/-- A text with its path tokens filled, from left to right. A slice that is not there ends the
run, behind the reports made so far. -/
def fill (endpoint : String) (params : List Pair) (onMissing : String → m Unit) :
    OptionT m String :=
  match find? ':' endpoint with
  | none => return endpoint
  | some pos => do
    let before ← (slice? endpoint 0 pos).getM
    let ⟨after, _⟩ ← (textFrom? endpoint (pos + 1)).getM
    let count := countName after
    if count = 0 then
      return before ++ ":" ++ (← fill after params onMissing)
    else
      let token ← (slice? after 0 count).getM
      let text ← OptionT.lift (tokenText params onMissing token)
      let ⟨behind, _⟩ ← (textFrom? after count).getM
      return before ++ text ++ (← fill behind params onMissing)
termination_by endpoint.utf8ByteSize
decreasing_by all_goals omega

section Counting

theorem find?_charsFrom_of_notMem {c : Char} {cs : List Char} (h : c ∉ cs) (pos : Nat) :
    (charsFrom pos cs).find? (·.2 = c) = none := by
  induction cs generalizing pos with
  | nil => rfl
  | cons d cs ih =>
    obtain ⟨hd, hcs⟩ := List.ne_and_not_mem_of_not_mem_cons h
    rw [charsFrom, List.find?_cons_of_neg (by simpa using Ne.symm hd), ih hcs]

theorem find?_charsFrom_append {c : Char} {text : List Char} (h : c ∉ text) (cs : List Char)
    (pos : Nat) : (charsFrom pos (text ++ c :: cs)).find? (·.2 = c) =
      some (pos + (String.ofList text).utf8ByteSize, c) := by
  induction text generalizing pos with
  | nil => simp [charsFrom]
  | cons d text ih =>
    obtain ⟨hd, htext⟩ := List.ne_and_not_mem_of_not_mem_cons h
    rw [List.cons_append, charsFrom, List.find?_cons_of_neg (by simpa using Ne.symm hd), ih htext,
      String.utf8ByteSize_ofList, String.utf8ByteSize_ofList, String.utf8Len_cons, Nat.add_assoc,
      Nat.add_comm d.utf8Size]

theorem find?_of_notMem {c : Char} {cs : List Char} (h : c ∉ cs) :
    find? c (String.ofList cs) = none := by
  rw [find?, String.toList_ofList, find?_charsFrom_of_notMem h, Option.map_none]

theorem find?_append {c : Char} {text : List Char} (h : c ∉ text) (cs : List Char) :
    find? c (String.ofList (text ++ c :: cs)) = some (String.ofList text).utf8ByteSize := by
  rw [find?, String.toList_ofList, find?_charsFrom_append h, Option.map_some, Nat.zero_add]

theorem length_takeWhile_charsFrom {pos : Nat} (hpos : 0 < pos) (cs : List Char) :
    ((charsFrom pos cs).takeWhile fun (pos, c) =>
      if pos = 0 then isIdentStart c else isIdentPart c).length =
        (cs.takeWhile isIdentPart).length := by
  induction cs generalizing pos with
  | nil => rfl
  | cons c cs ih =>
    have hnext := ih (Nat.add_pos_left hpos c.utf8Size)
    have hne : pos ≠ 0 := Nat.ne_of_gt hpos
    by_cases hc : isIdentPart c <;> simp [charsFrom, hc, hne, hnext]

theorem countName_ofList (cs : List Char) :
    countName (String.ofList cs) = (String.ofList (leadingIdent cs)).utf8ByteSize := by
  rw [utf8ByteSize_leadingIdent, countName, String.toList_ofList]
  cases cs with
  | nil => rfl
  | cons c cs =>
    have hpos : 0 < 0 + c.utf8Size := by simp [Char.utf8Size_pos]
    have hrest := length_takeWhile_charsFrom hpos cs
    by_cases hc : isIdentStart c
    · rw [charsFrom, List.takeWhile_cons_of_pos (by simpa using hc), List.length_cons, hrest]
      simp [leadingIdent, hc]
    · simp [charsFrom, leadingIdent, hc]

end Counting

section Filling

variable {params : List Pair} {onMissing : String → m Unit}

theorem fill_of_notMem {cs : List Char} (h : ':' ∉ cs) :
    fill (String.ofList cs) params onMissing = pure (String.ofList cs) := by
  rw [fill, find?_of_notMem h]

variable [LawfulMonad m]

theorem getM_some_bind {α β : Type} (a : α) (f : α → OptionT m β) : (some a).getM >>= f = f a :=
  pure_bind a f

theorem textFrom?_getM_bind {s before t : String} {start : Nat} (hs : s = before ++ t)
    (hstart : start = before.utf8ByteSize) {α : Type}
    (f : {t : String // start + t.utf8ByteSize = s.utf8ByteSize} → OptionT m α) :
    (textFrom? s start).getM >>= f =
      f ⟨t, by rw [hs, hstart, String.utf8ByteSize_append]⟩ := by
  subst hs hstart
  rw [textFrom?_eq_some (slice?_end before t), getM_some_bind]

theorem fill_colon {text : List Char} (htext : ':' ∉ text) (cs : List Char) :
    fill (String.ofList (text ++ ':' :: cs)) params onMissing =
      if leadingIdent cs = [] then do
        return String.ofList text ++ ":" ++ (← fill (String.ofList cs) params onMissing)
      else do
        let value ← OptionT.lift (tokenText params onMissing (String.ofList (leadingIdent cs)))
        return String.ofList text ++ value ++
          (← fill (String.ofList (afterIdent cs)) params onMissing) := by
  have hs : String.ofList (text ++ ':' :: cs) = String.ofList text ++ ":" ++ String.ofList cs := by
    rw [← String.toList_inj]
    simp
  have hpos : (String.ofList text).utf8ByteSize + 1 = (String.ofList text ++ ":").utf8ByteSize := by
    rw [String.utf8ByteSize_append]
    rfl
  have hbefore : slice? (String.ofList (text ++ ':' :: cs)) 0 (String.ofList text).utf8ByteSize =
      some (String.ofList text) :=
    slice?_eq_some_iff.mpr ⟨"", ":" ++ String.ofList cs, by simp [hs, String.append_assoc], rfl,
      by simp⟩
  have hname : slice? (String.ofList cs) 0 (String.ofList (leadingIdent cs)).utf8ByteSize =
      some (String.ofList (leadingIdent cs)) := by
    simpa using slice?_name "" cs
  have hcs : String.ofList cs =
      String.ofList (leadingIdent cs) ++ String.ofList (afterIdent cs) := by
    simpa using eq_append_name "" cs
  rw [fill, find?_append htext]
  simp only [hbefore, getM_some_bind]
  rw [textFrom?_getM_bind hs hpos]
  simp only [countName_ofList, String.utf8ByteSize_eq_zero_iff, String.ofList_eq_empty_iff, hname,
    getM_some_bind, textFrom?_getM_bind hcs (countName_ofList cs)]

theorem tokenText_ofList (name : List Char) :
    tokenText params onMissing (String.ofList name) =
      String.ofList <$> fillPiece params onMissing (.token name) := by
  rw [tokenText, fillPiece]
  cases param? params (String.ofList name) with
  | none => simp
  | some value => simp

theorem fill_text {text rest : List Char} (htext : ':' ∉ text) (hstop : ∀ c ∈ rest.head?, c = ':') :
    fill (String.ofList (text ++ rest)) params onMissing =
      (String.ofList text ++ ·) <$> fill (String.ofList rest) params onMissing := by
  cases rest with
  | nil =>
    rw [List.append_nil, fill_of_notMem htext, fill_of_notMem List.not_mem_nil, map_pure]
    simp
  | cons c cs =>
    obtain rfl := hstop c rfl
    rw [fill_colon htext, ← List.nil_append (':' :: cs), fill_colon List.not_mem_nil]
    split <;> simp [String.append_assoc]

theorem lift_map {α β : Type} (f : α → β) (x : m α) :
    OptionT.lift (f <$> x) = f <$> OptionT.lift x := by
  rw [map_eq_pure_bind, map_eq_pure_bind, OptionT.lift_bind]
  exact bind_congr fun a => OptionT.lift_pure (f a)

theorem lift_fillPieces_cons (piece : Piece) (rest : List Piece) :
    OptionT.lift (String.ofList <$> fillPieces params onMissing (piece :: rest)) = do
      let text ← OptionT.lift (String.ofList <$> fillPiece params onMissing piece)
      return text ++ (← OptionT.lift (String.ofList <$> fillPieces params onMissing rest)) := by
  simp [fillPieces, lift_map]

theorem fill_ofList (cs : List Char) :
    fill (String.ofList cs) params onMissing =
      OptionT.lift (String.ofList <$> fillPieces params onMissing (pieces cs)) := by
  fun_induction pieces cs with
  | case1 =>
    rw [fill_of_notMem List.not_mem_nil, fillPieces]
    simp
  | case2 cs hname ih =>
    rw [← List.nil_append (':' :: cs), fill_colon List.not_mem_nil, if_pos hname, ih,
      lift_fillPieces_cons, fillPiece]
    simp
  | case3 cs hname ih =>
    rw [← List.nil_append (':' :: cs), fill_colon List.not_mem_nil, if_neg hname, ih,
      lift_fillPieces_cons, tokenText_ofList]
    simp
  | case4 c cs hc ih =>
    have hplain : ':' ∉ c :: cs.takeWhile (· != ':') :=
      List.not_mem_cons_of_ne_of_not_mem (Ne.symm hc) (notMem_takeWhile_ne ':' cs)
    rw [← List.takeWhile_append_dropWhile (p := (· != ':')) (l := cs), ← List.cons_append,
      fill_text hplain (eq_of_head?_dropWhile_ne ':' cs), ih, lift_fillPieces_cons, fillPiece]
    simp

theorem fill_eq (endpoint : String) (params : List Pair) (onMissing : String → m Unit) :
    fill endpoint params onMissing = OptionT.lift (Endpoint.fill endpoint params onMissing) := by
  rw [← String.ofList_toList (s := endpoint), fill_ofList, Endpoint.fill, String.toList_ofList]

end Filling

end FlowScript.Positions
