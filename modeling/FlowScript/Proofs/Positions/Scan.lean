import FlowScript.Proofs.Positions.Slices
import FlowScript.Proofs.Template.Seams
import FlowScript.Proofs.Text.UpTo

/-! Placeholders found by their positions. The loop goes over the bytes of the text one by one, so
it also stops inside characters. It cuts only in front of a dollar sign and behind a token, and
these are borders of characters. -/

namespace FlowScript.Positions

open Text Template

def nameLength (bs : List UInt8) : Nat :=
  if bs.head?.any (onByte isIdentStart) then (bs.takeWhile (onByte isIdentPart)).length else 0

def nameLengthAt (s : String) (pos : Nat) : Option Nat :=
  (bytesFrom? s pos).map nameLength

/-- The token that the dollar sign at a position starts, and the number of bytes that it takes
behind the sign. -/
def tokenAt (s : String) (pos : Nat) : Option (Token × Nat) :=
  if (bytes s)[pos + 1]? = some '$'.toUInt8 then
    return (.text "$", 1)
  else if (bytes s)[pos + 1]? = some '\x7b'.toUInt8 then do
    let length ← nameLengthAt s (pos + 2)
    if 0 < length ∧ (bytes s)[pos + 2 + length]? = some '\x7d'.toUInt8 then
      return (.var (← slice? s (pos + 2) (pos + 2 + length)), length + 2)
    else return (.bare, 0)
  else do
    let length ← nameLengthAt s (pos + 1)
    if length = 0 then return (.bare, 0)
    else return (.var (← slice? s (pos + 1) (pos + 1 + length)), length)

def textBetween (s : String) (start stop : Nat) : Option (List Token) :=
  if start < stop then (slice? s start stop).map fun text => [.text text] else some []

/-- The tokens from a position on, where `start` is the position behind the last token. -/
def scanFrom (s : String) (start pos : Nat) : Option (List Token) :=
  if h : pos < (bytes s).length then
    if (bytes s)[pos] = '$'.toUInt8 then do
      let text ← textBetween s start pos
      let (token, behind) ← tokenAt s pos
      let rest ← scanFrom s (pos + 1 + behind) (pos + 1 + behind)
      return text ++ token :: rest
    else scanFrom s start (pos + 1)
  else textBetween s start (bytes s).length
termination_by (bytes s).length - pos

def scan (s : String) : Option (List Token) :=
  scanFrom s 0 0

section Names

theorem leadingIdent_eq_ite (cs : List Char) :
    leadingIdent cs = if cs.head?.any isIdentStart then cs.takeWhile isIdentPart else [] := by
  cases cs with
  | nil => rfl
  | cons c cs =>
    by_cases hc : isIdentStart c
    · simp [leadingIdent, hc, isIdentPart_of_isIdentStart hc]
    · simp [leadingIdent, hc]

theorem nameLength_bytes (cs : List Char) :
    nameLength (bytes (String.ofList cs)) = (String.ofList (leadingIdent cs)).utf8ByteSize := by
  have hpart : ∀ c, isIdentPart c → c.toNat < 128 := fun _ => toNat_lt_of_isIdentPart
  have hstart : ∀ c, isIdentStart c → c.toNat < 128 := fun _ => toNat_lt_of_isIdentStart
  rw [nameLength, head?_bytes hstart, takeWhile_bytes hpart, length_bytes, leadingIdent_eq_ite]
  split <;> rfl

variable (front : String) (cs : List Char)

theorem nameLengthAt_append : nameLengthAt (front ++ String.ofList cs) front.utf8ByteSize =
    some (String.ofList (leadingIdent cs)).utf8ByteSize := by
  rw [nameLengthAt, bytesFrom?_append, Option.map_some, nameLength_bytes]

theorem byte_behind_name {c : Char} (hc : c.toNat < 128) :
    (bytes (front ++ String.ofList cs))[front.utf8ByteSize +
      (String.ofList (leadingIdent cs)).utf8ByteSize]? = some c.toUInt8 ↔
        (afterIdent cs).head? = some c := by
  rw [eq_append_name, ← String.utf8ByteSize_append, byteAt_append_iff hc]

end Names

section Tokens

variable (front : String)

theorem utf8ByteSize_dollar : (front ++ "$").utf8ByteSize = front.utf8ByteSize + 1 := by
  rw [String.utf8ByteSize_append]
  rfl

theorem byte_behind_dollar {c : Char} (hc : c.toNat < 128) (cs : List Char) :
    (bytes (front ++ "$" ++ String.ofList cs))[front.utf8ByteSize + 1]? = some c.toUInt8 ↔
      cs.head? = some c := by
  rw [← utf8ByteSize_dollar, byteAt_append_iff hc]

theorem utf8ByteSize_braced (name : List Char) :
    (String.ofList ('\x7b' :: (name ++ ['\x7d']))).utf8ByteSize =
      (String.ofList name).utf8ByteSize + 2 := by
  have hparts : String.ofList ('\x7b' :: (name ++ ['\x7d'])) =
      "\x7b" ++ String.ofList name ++ "\x7d" := by
    rw [← String.toList_inj]
    simp
  rw [hparts, String.utf8ByteSize_append, String.utf8ByteSize_append,
    Nat.add_comm "\x7b".utf8ByteSize]
  rfl

theorem tokenAt_escape (cs : List Char) :
    tokenAt (front ++ "$" ++ String.ofList ('$' :: cs)) front.utf8ByteSize =
      some (.text "$", 1) := by
  rw [tokenAt, if_pos ((byte_behind_dollar front (by decide) _).mpr rfl)]
  rfl

theorem tokenAt_brace (cs : List Char) :
    tokenAt (front ++ "$" ++ String.ofList ('\x7b' :: cs)) front.utf8ByteSize =
      if leadingIdent cs ≠ [] ∧ (afterIdent cs).head? = some '\x7d' then
        some (.var (String.ofList (leadingIdent cs)),
          (String.ofList (leadingIdent cs)).utf8ByteSize + 2)
      else some (.bare, 0) := by
  have hinner : front ++ "$" ++ String.ofList ('\x7b' :: cs) =
      front ++ "$\x7b" ++ String.ofList cs := by
    rw [← String.toList_inj]
    simp
  have hpos : front.utf8ByteSize + 2 = (front ++ "$\x7b").utf8ByteSize := by
    rw [String.utf8ByteSize_append]
    rfl
  rw [tokenAt, if_neg (mt (byte_behind_dollar front (by decide) _).mp (by simp)),
    if_pos ((byte_behind_dollar front (by decide) _).mpr rfl), hinner, hpos, nameLengthAt_append]
  simp only [Option.bind_eq_bind, Option.bind_some, slice?_name,
    byte_behind_name _ _ (c := '\x7d') (by decide), Nat.pos_iff_ne_zero, ne_eq,
    String.utf8ByteSize_eq_zero_iff, String.ofList_eq_empty_iff]
  rfl

theorem tokenAt_of_head {cs : List Char} (hdollar : cs.head? ≠ some '$')
    (hbrace : cs.head? ≠ some '\x7b') :
    tokenAt (front ++ "$" ++ String.ofList cs) front.utf8ByteSize =
      if leadingIdent cs = [] then some (.bare, 0)
      else some (.var (String.ofList (leadingIdent cs)),
        (String.ofList (leadingIdent cs)).utf8ByteSize) := by
  rw [tokenAt, if_neg (mt (byte_behind_dollar front (by decide) _).mp hdollar),
    if_neg (mt (byte_behind_dollar front (by decide) _).mp hbrace), ← utf8ByteSize_dollar,
    nameLengthAt_append]
  simp only [Option.bind_eq_bind, Option.bind_some, slice?_name, String.utf8ByteSize_eq_zero_iff,
    String.ofList_eq_empty_iff]
  rfl

theorem exists_tokenAt_eq (cs : List Char) :
    ∃ spelled, cs = spelled ++ (Token.afterDollar cs).2 ∧
      tokenAt (front ++ "$" ++ String.ofList cs) front.utf8ByteSize =
        some ((Token.afterDollar cs).1, (String.ofList spelled).utf8ByteSize) := by
  fun_cases Token.afterDollar cs with
  | case1 cs => exact ⟨['$'], rfl, tokenAt_escape front cs⟩
  | case2 cs c name rest hrest hname =>
    refine ⟨'\x7b' :: (leadingIdent cs ++ ['\x7d']), ?_, ?_⟩
    · have hsplit := leadingIdent_append_afterIdent cs
      rw [hrest] at hsplit
      rw [List.cons_append, List.append_assoc, List.singleton_append, hsplit]
    · rw [tokenAt_brace, if_pos ⟨by simp [hname], by simp [hrest]⟩, hname, utf8ByteSize_braced]
  | case3 cs hopen =>
    refine ⟨[], rfl, ?_⟩
    rw [tokenAt_brace, if_neg]
    · rfl
    · rintro ⟨hname, hclosed⟩
      obtain ⟨c, name, hcons⟩ := List.exists_cons_of_ne_nil hname
      obtain ⟨rest, hrest⟩ := List.head?_eq_some_iff.mp hclosed
      exact hopen c name rest hcons hrest
  | case4 cs hdollar hbrace hname =>
    refine ⟨[], rfl, ?_⟩
    rw [tokenAt_of_head, if_pos hname]
    · rfl
    · exact fun h => (List.head?_eq_some_iff.mp h).elim hdollar
    · exact fun h => (List.head?_eq_some_iff.mp h).elim hbrace
  | case5 cs hdollar hbrace hname =>
    refine ⟨leadingIdent cs, (leadingIdent_append_afterIdent cs).symm, ?_⟩
    rw [tokenAt_of_head, if_neg hname]
    · exact fun h => (List.head?_eq_some_iff.mp h).elim hdollar
    · exact fun h => (List.head?_eq_some_iff.mp h).elim hbrace

end Tokens

section Loop

variable {s : String}

/-- The loop passes over bytes that are no dollar signs, wherever characters begin. -/
theorem scanFrom_skip (start : Nat) {front skipped behind : List UInt8}
    (hs : bytes s = front ++ skipped ++ behind) (hskipped : '$'.toUInt8 ∉ skipped) :
    scanFrom s start front.length = scanFrom s start (front ++ skipped).length := by
  -- Single bytes of a wide character are no text, so the induction is on bytes alone.
  induction skipped generalizing front with
  | nil => rw [List.append_nil]
  | cons b skipped ih =>
    obtain ⟨hb, hskipped⟩ := List.ne_and_not_mem_of_not_mem_cons hskipped
    have hat : (bytes s)[front.length]? = some b := by simp [hs]
    obtain ⟨hlt, hget⟩ := List.getElem?_eq_some_iff.mp hat
    have hs' : bytes s = (front ++ [b]) ++ skipped ++ behind := by simpa using hs
    have hrest := ih hs' hskipped
    rw [scanFrom, dif_pos hlt, hget, if_neg (Ne.symm hb)]
    simpa using hrest

theorem textBetween_self (s : String) (pos : Nat) : textBetween s pos pos = some [] := by
  rw [textBetween, if_neg (Nat.lt_irrefl _)]

theorem scanFrom_of_stop {start pos : Nat} {text : String} (hlt : start < pos)
    (hslice : slice? s start pos = some text) (hstop : ∀ b ∈ (bytes s)[pos]?, b = '$'.toUInt8) :
    scanFrom s start pos = (scanFrom s pos pos).map (.text text :: ·) := by
  have htext : textBetween s start pos = some [.text text] := by
    rw [textBetween, if_pos hlt, hslice, Option.map_some]
  have hle : pos ≤ (bytes s).length := by
    obtain ⟨before, behind, rfl, _, rfl⟩ := slice?_eq_some_iff.mp hslice
    rw [length_bytes, String.utf8ByteSize_append (t := behind)]
    exact Nat.le_add_right ..
  conv_lhs => rw [scanFrom]
  conv_rhs => rw [scanFrom]
  by_cases hpos : pos < (bytes s).length
  · have hdollar : (bytes s)[pos] = '$'.toUInt8 := hstop _ (List.getElem?_eq_getElem hpos)
    rw [dif_pos hpos, dif_pos hpos, if_pos hdollar, if_pos hdollar, htext, textBetween_self]
    cases tokenAt s pos with
    | none => rfl
    | some found =>
      simp only [Option.bind_eq_bind, Option.bind_some]
      cases scanFrom s (pos + 1 + found.2) (pos + 1 + found.2) <;> rfl
  · have hend : pos = (bytes s).length := Nat.le_antisymm hle (Nat.le_of_not_lt hpos)
    rw [dif_neg hpos, dif_neg hpos, ← hend, htext, textBetween_self, Option.map_some]

theorem scanFrom_text (front : String) {text rest : List Char} (hne : text ≠ [])
    (hplain : '$' ∉ text) (hstop : ∀ c ∈ rest.head?, c = '$') :
    scanFrom (front ++ String.ofList text ++ String.ofList rest) front.utf8ByteSize
        front.utf8ByteSize =
      (scanFrom (front ++ String.ofList text ++ String.ofList rest)
        (front ++ String.ofList text).utf8ByteSize
        (front ++ String.ofList text).utf8ByteSize).map (.text (String.ofList text) :: ·) := by
  have hskip := scanFrom_skip (s := front ++ String.ofList text ++ String.ofList rest)
    front.utf8ByteSize (by rw [bytes_append, bytes_append]) (notMem_bytes (by decide) hplain)
  rw [← bytes_append, length_bytes, length_bytes] at hskip
  rw [hskip]
  refine scanFrom_of_stop ?_ (slice?_append ..) ?_
  · have hsize : (String.ofList text).utf8ByteSize ≠ 0 := by
      simpa [String.utf8ByteSize_eq_zero_iff] using hne
    rw [String.utf8ByteSize_append]
    omega
  · intro b hb
    cases rest with
    | nil => simp [← length_bytes, bytes_append] at hb
    | cons c rest =>
      have hat := (byteAt_append_iff (c := '$') (by decide) (front ++ String.ofList text)
        (c :: rest)).mpr (congrArg some (hstop c rfl))
      exact Option.some.inj (hb.symm.trans hat)

theorem scanFrom_eq (front : String) (cs : List Char) :
    scanFrom (front ++ String.ofList cs) front.utf8ByteSize front.utf8ByteSize =
      some (Token.scanChars cs) := by
  fun_induction Token.scanChars cs generalizing front with
  | case1 =>
    have hend : ¬front.utf8ByteSize < (bytes (front ++ String.ofList [])).length := by
      simp [length_bytes]
    rw [scanFrom, dif_neg hend, length_bytes, String.ofList_nil, String.append_empty,
      textBetween_self]
  | case2 cs ih =>
    obtain ⟨spelled, hcs, htoken⟩ := exists_tokenAt_eq front cs
    have hsplit : front ++ String.ofList ('$' :: cs) = front ++ "$" ++ String.ofList cs := by
      rw [← String.toList_inj]
      simp
    have hat : (bytes (front ++ String.ofList ('$' :: cs)))[front.utf8ByteSize]? =
        some '$'.toUInt8 := (byteAt_append_iff (by decide) front _).mpr rfl
    obtain ⟨hlt, hget⟩ := List.getElem?_eq_some_iff.mp hat
    have hnext := ih (front ++ "$" ++ String.ofList spelled)
    rw [String.append_assoc, ← String.ofList_append, ← hcs, String.utf8ByteSize_append,
      utf8ByteSize_dollar] at hnext
    rw [scanFrom, dif_pos hlt, if_pos hget, textBetween_self, hsplit, htoken]
    simp only [Option.bind_eq_bind, Option.bind_some, hnext]
    rfl
  | case3 c cs hc ih =>
    have hplain : '$' ∉ c :: cs.takeWhile (· != '$') :=
      List.not_mem_cons_of_ne_of_not_mem (Ne.symm hc) (notMem_takeWhile_ne '$' cs)
    have hsplit : front ++ String.ofList (c :: cs) =
        front ++ String.ofList (c :: cs.takeWhile (· != '$')) ++
          String.ofList (cs.dropWhile (· != '$')) := by
      rw [String.append_assoc, ← String.ofList_append, List.cons_append,
        List.takeWhile_append_dropWhile]
    rw [hsplit, scanFrom_text front (List.cons_ne_nil _ _) hplain (eq_of_head?_dropWhile_ne '$' cs),
      ih, Option.map_some]

theorem scan_eq (s : String) : scan s = some (Template.scan s) := by
  have heq := scanFrom_eq "" s.toList
  rwa [String.empty_append, String.ofList_toList] at heq

end Loop

end FlowScript.Positions
