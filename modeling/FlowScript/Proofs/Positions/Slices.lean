import FlowScript.Proofs.Text.Identifier
import FlowScript.Proofs.Text.Trim
import Mathlib.Data.String.Basic

/-! Positions in a text counted in bytes. A slice between two positions is there only if both lie at
the borders of characters. Characters that take one byte can be found among the bytes, since no byte
of a longer character is one of theirs. -/

namespace FlowScript.Positions

open Text

def bytes (s : String) : List UInt8 :=
  s.toByteArray.data.toList

/-- The text between two positions. There is none if the positions are out of order, behind the end
or inside a character. -/
def slice? (s : String) (start stop : Nat) : Option String :=
  if h : start ≤ stop ∧ (String.Pos.Raw.mk start).IsValid s ∧
      (String.Pos.Raw.mk stop).IsValid s then
    some (s.extract (s.pos ⟨start⟩ h.2.1) (s.pos ⟨stop⟩ h.2.2))
  else none

def bytesFrom? (s : String) (start : Nat) : Option (List UInt8) :=
  if start ≤ s.utf8ByteSize then some ((bytes s).drop start) else none

def onByte (p : Char → Bool) (b : UInt8) : Bool :=
  p (Char.ofUInt8 b)

section Bytes

theorem length_bytes (s : String) : (bytes s).length = s.utf8ByteSize := by
  rw [bytes, Array.length_toList]
  rfl

theorem bytes_append (s t : String) : bytes (s ++ t) = bytes s ++ bytes t := by
  simp [bytes]

theorem bytes_ofList (cs : List Char) :
    bytes (String.ofList cs) = cs.flatMap String.utf8EncodeChar := by
  simp [bytes, List.utf8Encode]

theorem bytesFrom?_append (s t : String) :
    bytesFrom? (s ++ t) s.utf8ByteSize = some (bytes t) := by
  rw [bytesFrom?, if_pos (by simp), bytes_append, ← length_bytes, List.drop_left]

end Bytes

section Slices

theorem slice?_append (before t behind : String) :
    slice? (before ++ t ++ behind) before.utf8ByteSize (before ++ t).utf8ByteSize = some t := by
  have hstart : (String.Pos.Raw.mk before.utf8ByteSize).IsValid (before ++ t ++ behind) :=
    String.Pos.Raw.isValid_iff_exists_append.mpr
      ⟨before, t ++ behind, String.append_assoc .., rfl⟩
  have hstop : (String.Pos.Raw.mk (before ++ t).utf8ByteSize).IsValid (before ++ t ++ behind) :=
    String.Pos.Raw.isValid_iff_exists_append.mpr ⟨before ++ t, behind, rfl, rfl⟩
  rw [slice?, dif_pos ⟨by simp, hstart, hstop⟩, Option.some_inj, ← String.toByteArray_inj,
    String.toByteArray_extract, String.offset_pos, String.offset_pos, String.toByteArray_append,
    ← String.size_toByteArray, ← String.size_toByteArray, ByteArray.extract_append_size_left,
    String.toByteArray_append]
  exact ByteArray.extract_append_eq_right rfl ByteArray.size_append

theorem slice?_eq_some_iff {s t : String} {start stop : Nat} :
    slice? s start stop = some t ↔
      ∃ before behind, s = before ++ t ++ behind ∧ start = before.utf8ByteSize ∧
        stop = (before ++ t).utf8ByteSize := by
  constructor
  · intro hslice
    have hsome := hslice
    rw [slice?] at hsome
    split at hsome
    · rename_i h
      obtain ⟨hle, hstart, hstop⟩ := h
      obtain ⟨before, rest, hs, hbefore⟩ := String.Pos.Raw.isValid_iff_exists_append.mp hstart
      obtain ⟨upTo, behind, hs', hupTo⟩ := String.Pos.Raw.isValid_iff_exists_append.mp hstop
      have hfirst : (s.pos ⟨start⟩ hstart).Splits before rest := ⟨hs, hbefore⟩
      have hlast : (s.pos ⟨stop⟩ hstop).Splits upTo behind := ⟨hs', hupTo⟩
      obtain ⟨middle, rfl, -⟩ := (hfirst.le_iff_exists_eq_append hlast).mp hle
      obtain rfl : start = before.utf8ByteSize := congrArg String.Pos.Raw.byteIdx hbefore
      obtain rfl : stop = (before ++ middle).utf8ByteSize :=
        congrArg String.Pos.Raw.byteIdx hupTo
      have hmiddle := slice?_append before middle behind
      rw [← hs', hslice] at hmiddle
      obtain rfl := Option.some.inj hmiddle
      exact ⟨before, behind, hs', rfl, rfl⟩
    · cases hsome
  · rintro ⟨before, behind, rfl, rfl, rfl⟩
    exact slice?_append before t behind

example : slice? "é$" 0 2 = some "é" ∧ slice? "é$" 1 2 = none ∧ slice? "é$" 2 4 = none := by
  decide +kernel

theorem slice?_end (before t : String) :
    slice? (before ++ t) before.utf8ByteSize (before ++ t).utf8ByteSize = some t :=
  slice?_eq_some_iff.mpr ⟨before, "", String.append_empty.symm, rfl, rfl⟩

theorem utf8ByteSize_of_slice?_end {s t : String} {start : Nat}
    (h : slice? s start s.utf8ByteSize = some t) : start + t.utf8ByteSize = s.utf8ByteSize := by
  obtain ⟨before, behind, rfl, rfl, hstop⟩ := slice?_eq_some_iff.mp h
  simp only [String.utf8ByteSize_append] at hstop ⊢
  omega

def textFrom? (s : String) (start : Nat) :
    Option {t : String // start + t.utf8ByteSize = s.utf8ByteSize} :=
  match h : slice? s start s.utf8ByteSize with
  | none => none
  | some t => some ⟨t, utf8ByteSize_of_slice?_end h⟩

theorem textFrom?_eq_some {s t : String} {start : Nat}
    (h : slice? s start s.utf8ByteSize = some t) :
    textFrom? s start = some ⟨t, utf8ByteSize_of_slice?_end h⟩ := by
  unfold textFrom?
  split
  · rename_i hnone
    rw [h] at hnone
    cases hnone
  · rename_i u hsome
    obtain rfl := Option.some.inj (h.symm.trans hsome)
    rfl

end Slices

section OneByte

theorem utf8EncodeChar_of_lt {c : Char} (h : c.toNat < 128) :
    String.utf8EncodeChar c = [c.toUInt8] :=
  String.utf8EncodeChar_eq_singleton (Char.utf8Size_eq_one_iff.mpr (Nat.le_of_lt_succ h))

theorem le_toNat_of_mem_utf8EncodeChar {c : Char} (h : 128 ≤ c.toNat) {b : UInt8}
    (hb : b ∈ String.utf8EncodeChar c) : 128 ≤ b.toNat := by
  have hnot : ¬c.val.toNat ≤ 127 := Nat.not_le.mpr h
  rw [String.utf8EncodeChar, if_neg hnot] at hb
  split at hb
  · simp only [List.mem_cons, List.not_mem_nil, or_false] at hb
    rcases hb with rfl | rfl <;> rw [UInt8.toNat_ofNat'] <;> omega
  · split at hb
    · simp only [List.mem_cons, List.not_mem_nil, or_false] at hb
      rcases hb with rfl | rfl | rfl <;> rw [UInt8.toNat_ofNat'] <;> omega
    · simp only [List.mem_cons, List.not_mem_nil, or_false] at hb
      rcases hb with rfl | rfl | rfl | rfl <;> rw [UInt8.toNat_ofNat'] <;> omega

theorem exists_utf8EncodeChar_eq_cons (c : Char) :
    ∃ b rest, String.utf8EncodeChar c = b :: rest :=
  List.exists_cons_of_ne_nil String.utf8EncodeChar_ne_nil

theorem toNat_ofUInt8 (b : UInt8) : (Char.ofUInt8 b).toNat = b.toNat :=
  rfl

theorem ofUInt8_toUInt8 {c : Char} (h : c.toNat < 128) : Char.ofUInt8 c.toUInt8 = c := by
  rw [← Char.toNat_inj, toNat_ofUInt8]
  exact Nat.mod_eq_of_lt (Nat.lt_trans h (by decide))

section Tests

variable {p : Char → Bool} (hp : ∀ c, p c → c.toNat < 128)
include hp

/-- A test that holds of characters of one byte alone gives the same answer at each byte of a
character. -/
theorem onByte_eq {c : Char} {b : UInt8} (hb : b ∈ String.utf8EncodeChar c) :
    onByte p b = p c := by
  by_cases hc : c.toNat < 128
  · rw [utf8EncodeChar_of_lt hc, List.mem_singleton] at hb
    rw [hb, onByte, ofUInt8_toUInt8 hc]
  · have hwide := le_toNat_of_mem_utf8EncodeChar (Nat.le_of_not_lt hc) hb
    have hbyte : ¬onByte p b := fun h => absurd (hp _ h) (Nat.not_lt.mpr hwide)
    have hchar : ¬p c := fun h => hc (hp _ h)
    rw [Bool.eq_false_iff.mpr hbyte, Bool.eq_false_iff.mpr hchar]

theorem takeWhile_bytes (cs : List Char) :
    (bytes (String.ofList cs)).takeWhile (onByte p) =
      bytes (String.ofList (cs.takeWhile p)) := by
  simp only [bytes_ofList]
  induction cs with
  | nil => rfl
  | cons c cs ih =>
    by_cases hc : p c
    · have hall : ∀ b ∈ String.utf8EncodeChar c, onByte p b = true := fun b hb => by
        rw [onByte_eq hp hb, hc]
      rw [List.flatMap_cons, List.takeWhile_append_of_pos hall, ih, List.takeWhile_cons_of_pos hc,
        List.flatMap_cons]
    · obtain ⟨b, rest, hbytes⟩ := exists_utf8EncodeChar_eq_cons c
      have hb : ¬onByte p b := by
        rwa [onByte_eq hp (hbytes ▸ List.mem_cons_self ..)]
      rw [List.flatMap_cons, hbytes, List.cons_append, List.takeWhile_cons_of_neg hb,
        List.takeWhile_cons_of_neg hc, List.flatMap_nil]

theorem head?_bytes (cs : List Char) :
    (bytes (String.ofList cs)).head?.any (onByte p) = cs.head?.any p := by
  cases cs with
  | nil => rfl
  | cons c cs =>
    obtain ⟨b, rest, hbytes⟩ := exists_utf8EncodeChar_eq_cons c
    rw [bytes_ofList, List.flatMap_cons, hbytes, List.cons_append, List.head?_cons, List.head?_cons,
      Option.any_some, Option.any_some, onByte_eq hp (hbytes ▸ List.mem_cons_self ..)]

theorem utf8ByteSize_ofList_of_all {cs : List Char} (h : ∀ c ∈ cs, p c) :
    (String.ofList cs).utf8ByteSize = cs.length := by
  rw [← length_bytes, bytes_ofList]
  induction cs with
  | nil => rfl
  | cons c cs ih =>
    obtain ⟨hc, hcs⟩ := List.forall_mem_cons.mp h
    rw [List.flatMap_cons, List.length_append, ih hcs, utf8EncodeChar_of_lt (hp c hc),
      List.length_singleton, List.length_cons, Nat.add_comm]

end Tests

theorem eq_toUInt8_iff {c d : Char} (hc : c.toNat < 128) {b : UInt8}
    (hb : b ∈ String.utf8EncodeChar d) : b = c.toUInt8 ↔ d = c := by
  have hp : ∀ e, (e == c) = true → e.toNat < 128 := fun e he => by rwa [eq_of_beq he]
  have htest := onByte_eq hp hb
  constructor
  · rintro rfl
    rw [onByte, ofUInt8_toUInt8 hc, beq_self_eq_true] at htest
    exact eq_of_beq htest.symm
  · rintro rfl
    rwa [utf8EncodeChar_of_lt hc, List.mem_singleton] at hb

theorem notMem_bytes {c : Char} (hc : c.toNat < 128) {cs : List Char} (h : c ∉ cs) :
    c.toUInt8 ∉ bytes (String.ofList cs) := by
  rw [bytes_ofList, List.mem_flatMap]
  rintro ⟨d, hd, hbyte⟩
  exact h ((eq_toUInt8_iff hc hbyte).mp rfl ▸ hd)

theorem byteAt_append_iff {c : Char} (hc : c.toNat < 128) (front : String) (cs : List Char) :
    (bytes (front ++ String.ofList cs))[front.utf8ByteSize]? = some c.toUInt8 ↔
      cs.head? = some c := by
  rw [bytes_append, ← length_bytes, List.getElem?_append_right (Nat.le_refl _), Nat.sub_self,
    ← List.head?_eq_getElem?, bytes_ofList]
  cases cs with
  | nil => simp
  | cons d cs =>
    obtain ⟨b, rest, hbytes⟩ := exists_utf8EncodeChar_eq_cons d
    rw [List.flatMap_cons, hbytes, List.cons_append, List.head?_cons, List.head?_cons,
      Option.some_inj, Option.some_inj, eq_toUInt8_iff hc (hbytes ▸ List.mem_cons_self ..)]

end OneByte

section Names

theorem toNat_lt_of_isIdentPart {c : Char} (h : isIdentPart c) : c.toNat < 128 := by
  have hranges := toNat_of_isIdentPart h
  omega

theorem isIdentPart_of_isIdentStart {c : Char} (h : isIdentStart c) : isIdentPart c :=
  isIdentPart_iff.mpr (.inl (isIdentStart_iff.mp h))

theorem toNat_lt_of_isIdentStart {c : Char} (h : isIdentStart c) : c.toNat < 128 :=
  toNat_lt_of_isIdentPart (isIdentPart_of_isIdentStart h)

theorem isIdentPart_of_mem_leadingIdent {cs : List Char} :
    ∀ c ∈ leadingIdent cs, isIdentPart c := by
  cases cs with
  | nil => simp [leadingIdent]
  | cons d cs =>
    by_cases hd : isIdentStart d
    · simp only [leadingIdent, hd, if_true, List.forall_mem_cons]
      exact ⟨isIdentPart_of_isIdentStart hd, fun c hc => List.mem_takeWhile_imp hc⟩
    · simp [leadingIdent, hd]

theorem utf8ByteSize_leadingIdent (cs : List Char) :
    (String.ofList (leadingIdent cs)).utf8ByteSize = (leadingIdent cs).length :=
  utf8ByteSize_ofList_of_all (fun _ => toNat_lt_of_isIdentPart) isIdentPart_of_mem_leadingIdent

variable (front : String) (cs : List Char)

theorem eq_append_name : front ++ String.ofList cs =
    front ++ String.ofList (leadingIdent cs) ++ String.ofList (afterIdent cs) := by
  rw [String.append_assoc, ← String.ofList_append, leadingIdent_append_afterIdent]

theorem slice?_name : slice? (front ++ String.ofList cs) front.utf8ByteSize
    (front.utf8ByteSize + (String.ofList (leadingIdent cs)).utf8ByteSize) =
      some (String.ofList (leadingIdent cs)) := by
  rw [eq_append_name, ← String.utf8ByteSize_append]
  exact slice?_append ..

end Names

end FlowScript.Positions
