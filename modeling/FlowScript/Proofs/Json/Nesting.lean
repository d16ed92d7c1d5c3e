import FlowScript.Json.Printer
import FlowScript.Proofs.Layout.Nesting

/-! The brackets of a JSON text are nested, whatever its strings and keys hold. -/

namespace FlowScript.Json

open Layout

section Numbers

def isNumeral (c : Char) : Bool :=
  c.isDigit || ['+', '-', '.', 'e', 'n', 'u', 'l'].contains c

theorem isNumeral_toDigits (n : Nat) : ∀ c ∈ Nat.toDigits 10 n, isNumeral c := by
  intro c hc
  have hdigit : c.isDigit := Nat.isDigit_of_mem_toDigits (by decide) (by decide) hc
  simp [isNumeral, hdigit]

theorem isNumeral_zeros (n : Nat) : ∀ c ∈ Decimal.zeros n, isNumeral c := by
  intro c hc
  rw [List.eq_of_mem_replicate hc]
  decide

theorem isNumeral_digits (x : Decimal.Scaled) : ∀ c ∈ x.digits, isNumeral c := by
  intro c hc
  have hrest := (List.dropWhile_suffix _).subset (List.mem_reverse.mp hc)
  exact isNumeral_toDigits _ c (List.mem_reverse.mp hrest)

section Notation

variable {digits : List Char} (hdigits : ∀ c ∈ digits, isNumeral c)
include hdigits

theorem isNumeral_positional (point : Int) :
    ∀ c ∈ Decimal.positional digits point, isNumeral c := by
  fun_cases Decimal.positional digits point with
  | case1 =>
    have hzeros := isNumeral_zeros (-point).toNat
    exact List.forall_mem_append.mpr ⟨List.forall_mem_cons.mpr ⟨by decide,
      List.forall_mem_cons.mpr ⟨by decide, hzeros⟩⟩, hdigits⟩
  | case2 => exact List.forall_mem_append.mpr ⟨hdigits, isNumeral_zeros _⟩
  | case3 =>
    have hwhole : ∀ c ∈ digits.take point.toNat, isNumeral c :=
      fun c hc => hdigits c (List.mem_of_mem_take hc)
    have hfraction : ∀ c ∈ digits.drop point.toNat, isNumeral c :=
      fun c hc => hdigits c (List.mem_of_mem_drop hc)
    exact List.forall_mem_append.mpr ⟨hwhole, List.forall_mem_cons.mpr ⟨by decide, hfraction⟩⟩

theorem isNumeral_scientific (point : Int) :
    ∀ c ∈ Decimal.scientific digits point, isNumeral c := by
  have hfirst : ∀ c ∈ digits.take 1, isNumeral c :=
    fun c hc => hdigits c (List.mem_of_mem_take hc)
  have hfraction : ∀ c ∈ if digits.length ≤ 1 then [] else '.' :: digits.drop 1, isNumeral c := by
    split
    · exact List.forall_mem_nil _
    · exact List.forall_mem_cons.mpr ⟨by decide, fun c hc => hdigits c (List.mem_of_mem_drop hc)⟩
  have hsign : ∀ c ∈ ['e', if point - 1 < 0 then '-' else '+'], isNumeral c := by
    split <;> exact List.all_eq_true.mp (by decide)
  exact List.forall_mem_append.mpr ⟨List.forall_mem_append.mpr ⟨List.forall_mem_append.mpr
    ⟨hfirst, hfraction⟩, hsign⟩, isNumeral_toDigits _⟩

theorem isNumeral_signed (negative : Bool) :
    ∀ c ∈ (Decimal.signed negative digits).toList, isNumeral c := by
  rw [Decimal.signed, String.toList_ofList]
  cases negative with
  | false => exact hdigits
  | true => exact List.forall_mem_cons.mpr ⟨by decide, hdigits⟩

end Notation

theorem isNumeral_floatText (x : Binary64) : ∀ c ∈ (floatText x).toList, isNumeral c := by
  fun_cases floatText x with
  | case1 negative => exact isNumeral_signed (List.all_eq_true.mp (by decide)) negative
  | case2 negative mantissa exponent _ _ decimal digits point =>
    have hdigits : ∀ c ∈ digits, isNumeral c := isNumeral_digits decimal
    have hpositional := isNumeral_positional hdigits point
    refine isNumeral_signed ?_ negative
    split
    · dsimp only
      split
      · exact hpositional
      · exact List.forall_mem_append.mpr ⟨hpositional, List.all_eq_true.mp (by decide)⟩
    · exact isNumeral_scientific hdigits point
  | case3 => exact List.all_eq_true.mp (by decide)
  | case4 => exact List.all_eq_true.mp (by decide)

theorem isNumeral_natText (n : Nat) : ∀ c ∈ (toString n).toList, isNumeral c := by
  rw [Nat.toString_eq_repr, Nat.toList_repr]
  exact isNumeral_toDigits n

theorem isNumeral_text (n : Number) : ∀ c ∈ n.text.toList, isNumeral c := by
  cases n with
  | natural n => exact isNumeral_natText n
  | negative n =>
    cases n with
    | ofNat n => exact isNumeral_natText n
    | negSucc n =>
      show ∀ c ∈ ("-" ++ Nat.repr (n + 1)).toList, isNumeral c
      rw [String.toList_append, ← Nat.toString_eq_repr]
      exact List.forall_mem_append.mpr
        ⟨List.all_eq_true.mp (by decide), isNumeral_natText (n + 1)⟩
  | float x => exact isNumeral_floatText x

theorem isPlain_text (n : Number) : ∀ c ∈ n.text.toList, isPlain c :=
  fun c hc => isPlain_of_class (by decide) (isNumeral_text n c hc)

end Numbers

section Strings

theorem quoted_escapedChar (c : Char) : Quoted '"' (escapedChar c) := by
  fun_cases escapedChar c with
  | case1 => exact .escape (by decide) .nil
  | case2 => exact .escape (by decide) .nil
  | case3 => exact .escape (by decide) .nil
  | case4 => exact .escape (by decide) .nil
  | case5 => exact .escape (by decide) .nil
  | case6 => exact .escape (by decide) .nil
  | case7 => exact .escape (by decide) .nil
  | case8 _ _ _ _ _ _ _ hcontrol =>
    have hdigit : ∀ n < 16, n.digitChar ≠ '"' ∧ n.digitChar ≠ '\\' ∧ n.digitChar ≠ '\n' := by
      decide
    obtain ⟨hquote, hslash, hfeed⟩ := hdigit (c.toNat / 16) (by omega)
    obtain ⟨hquote', hslash', hfeed'⟩ := hdigit (c.toNat % 16) (by omega)
    exact .escape (by decide) (.char (by decide) (by decide) (by decide) (.char (by decide)
      (by decide) (by decide) (.char hquote hslash hfeed (.char hquote' hslash' hfeed' .nil))))
  | case9 hquote hslash _ _ hfeed => exact .char hquote hslash hfeed .nil

theorem nested_stringText (s : String) : Nested (stringText s).toList := by
  rw [stringText, String.toList_ofList]
  exact nested_quotes (by decide) (Quoted.flatMap fun c _ => quoted_escapedChar c)

end Strings

section Values

theorem nested_lineBreak (level : Nat) : Nested (lineBreak level).toList := by
  have hbreak : (lineBreak level).toList = '\n' :: List.replicate (2 * level) ' ' := by
    simp [lineBreak]
  rw [hbreak]
  refine nested_of_isPlain (List.all_eq_true.mpr (List.forall_mem_cons.mpr ⟨by decide, ?_⟩))
  intro c hc
  rw [List.eq_of_mem_replicate hc]
  decide

theorem nested_block {opener closer : String} {first last : Char} {shape : Bracket}
    (hopener : opener.toList = [first]) (hcloser : closer.toList = [last])
    (hopen : Bracket.opening? first = some shape) (hclose : Bracket.closing? last = some shape)
    (level : Nat) {items : List String} (hitems : ∀ item ∈ items, Nested item.toList) :
    Nested (block opener closer level items).toList := by
  fun_cases block opener closer level items with
  | case1 =>
    rw [String.toList_append, hopener, hcloser]
    exact nested_brackets hopen hclose .nil
  | case2 =>
    have hseparator : Nested ("," ++ lineBreak (level + 1)).toList := by
      rw [String.toList_append]
      exact (nested_of_isPlain (by decide)).append (nested_lineBreak _)
    have hlines := nested_intercalate hseparator (List.forall_mem_map.mpr hitems)
    have hinside := ((nested_lineBreak (level + 1)).append hlines).append (nested_lineBreak level)
    have hblock := nested_brackets hopen hclose hinside
    simpa [hopener, hcloser, String.toList_intercalate] using hblock

mutual

theorem nested_prettyAt (level : Nat) : (value : Json) → Nested (prettyAt level value).toList
  | .null => show Nested "null".toList from nested_of_isPlain (by decide)
  | .bool true => show Nested "true".toList from nested_of_isPlain (by decide)
  | .bool false => show Nested "false".toList from nested_of_isPlain (by decide)
  | .number n => nested_of_isPlain (List.all_eq_true.mpr (isPlain_text n))
  | .string s => nested_stringText s
  | .array items => nested_block rfl rfl rfl rfl level (nested_prettyItems (level + 1) items)
  | .object members => nested_block rfl rfl rfl rfl level (nested_prettyMembers (level + 1) members)

theorem nested_prettyItems (level : Nat) :
    (items : List Json) → ∀ item ∈ prettyItems level items, Nested item.toList
  | [] => List.forall_mem_nil _
  | item :: rest =>
    List.forall_mem_cons.mpr ⟨nested_prettyAt level item, nested_prettyItems level rest⟩

theorem nested_prettyMembers (level : Nat) :
    (members : List (String × Json)) → ∀ member ∈ prettyMembers level members, Nested member.toList
  | [] => List.forall_mem_nil _
  | (key, value) :: rest => by
    have hmember : Nested (stringText key ++ ": " ++ prettyAt level value).toList := by
      rw [String.toList_append, String.toList_append]
      exact ((nested_stringText key).append (nested_of_isPlain (by decide))).append
        (nested_prettyAt level value)
    exact List.forall_mem_cons.mpr ⟨hmember, nested_prettyMembers level rest⟩

end

theorem nested_pretty (value : Json) : Nested value.pretty.toList :=
  nested_prettyAt 0 value

end Values

end FlowScript.Json
