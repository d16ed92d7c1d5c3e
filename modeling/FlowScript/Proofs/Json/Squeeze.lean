import FlowScript.Proofs.Json.Nesting
import FlowScript.Proofs.Text.Trim
import Mathlib.Data.List.Forall2

/-! The blanks of a JSON text that are not part of its strings. Without them the pretty text of a
value is its compact text, and no string of either goes over the end of a line. -/

namespace FlowScript.Json

open Layout (Quoted)

inductive StringState where
  | outside
  | inside
  | escaped
  deriving DecidableEq

namespace StringState

def next : StringState → Char → StringState
  | .outside, c => if c = '"' then .inside else .outside
  | .inside, c => if c = '\\' then .escaped else if c = '"' then .outside else .inside
  | .escaped, _ => .inside

def after? : StringState → List Char → Option StringState
  | state, [] => some state
  | state, c :: cs => if c = '\n' ∧ state ≠ .outside then none else (state.next c).after? cs

end StringState

/-- The text without the blanks outside its strings. -/
def squeeze : StringState → List Char → List Char
  | _, [] => []
  | .outside, c :: cs =>
    if Text.isBlank c then squeeze .outside cs
    else c :: squeeze (StringState.outside.next c) cs
  | state, c :: cs => c :: squeeze (state.next c) cs

def squeezed (s : String) : String :=
  String.ofList (squeeze .outside s.toList)

section States

variable {state : StringState}

theorem StringState.after?_append (state : StringState) (cs ds : List Char) :
    state.after? (cs ++ ds) = (state.after? cs).bind (·.after? ds) := by
  induction cs generalizing state with
  | nil => rfl
  | cons c cs ih =>
    rw [List.cons_append, after?, after?]
    split
    · rfl
    · exact ih _

theorem squeeze_append {cs : List Char} {between : StringState}
    (h : state.after? cs = some between) (ds : List Char) :
    squeeze state (cs ++ ds) = squeeze state cs ++ squeeze between ds := by
  induction cs generalizing state with
  | nil =>
    obtain rfl := Option.some.inj h
    rfl
  | cons c cs ih =>
    rw [StringState.after?] at h
    split at h
    · contradiction
    · have hrest := ih h
      cases state with
      | outside =>
        rw [List.cons_append, squeeze, squeeze]
        split
        · next hblank =>
          have hquote : c ≠ '"' := by rintro rfl; exact absurd hblank (by decide)
          rw [StringState.next, if_neg hquote] at hrest
          exact hrest
        · rw [hrest, List.cons_append]
      | inside => rw [List.cons_append, squeeze, squeeze, hrest, List.cons_append] <;> simp
      | escaped => rw [List.cons_append, squeeze, squeeze, hrest, List.cons_append] <;> simp

end States

/-- The strings of the text are closed where it ends and where its lines end, and the text keeps the
given characters without its blanks. -/
structure Squeezes (cs kept : List Char) : Prop where
  closed : StringState.outside.after? cs = some .outside
  squeeze_eq : squeeze .outside cs = kept

section Closure

variable {cs ds kept kept' : List Char}

theorem squeezes_nil : Squeezes [] [] :=
  ⟨rfl, rfl⟩

theorem Squeezes.append (h : Squeezes cs kept) (h' : Squeezes ds kept') :
    Squeezes (cs ++ ds) (kept ++ kept') where
  closed := by rw [StringState.after?_append, h.closed, Option.bind_some, h'.closed]
  squeeze_eq := by rw [squeeze_append h.closed, h.squeeze_eq, h'.squeeze_eq]

theorem squeezes_blanks (h : ∀ c ∈ cs, Text.isBlank c) : Squeezes cs [] := by
  induction cs with
  | nil => exact squeezes_nil
  | cons c cs ih =>
    obtain ⟨hblank, hcs⟩ := List.forall_mem_cons.mp h
    have hquote : c ≠ '"' := by rintro rfl; exact absurd hblank (by decide)
    obtain ⟨hclosed, hsqueeze⟩ := ih hcs
    refine ⟨?_, by rw [squeeze, if_pos hblank, hsqueeze]⟩
    rwa [StringState.after?, if_neg (by simp), StringState.next, if_neg hquote]

theorem squeezes_lineFeed : Squeezes ['\n'] [] :=
  squeezes_blanks (by simp; decide)

theorem squeezes_indent (n : Nat) : Squeezes (List.replicate n ' ') [] := by
  refine squeezes_blanks fun c hc => ?_
  rw [List.eq_of_mem_replicate hc]
  decide

theorem squeezes_of_all {p : Char → Bool} (hquote : p '"' = false)
    (hblank : ∀ c, Text.isBlank c → p c = false) (h : ∀ c ∈ cs, p c) : Squeezes cs cs := by
  induction cs with
  | nil => exact squeezes_nil
  | cons c cs ih =>
    obtain ⟨hc, hcs⟩ := List.forall_mem_cons.mp h
    have hquote : c ≠ '"' := by rintro rfl; simp [hquote] at hc
    have hblank : ¬Text.isBlank c := fun hblank' => by simp [hblank c hblank'] at hc
    obtain ⟨hclosed, hsqueeze⟩ := ih hcs
    refine ⟨?_, ?_⟩
    · rwa [StringState.after?, if_neg (by simp), StringState.next, if_neg hquote]
    · rw [squeeze, if_neg hblank, StringState.next, if_neg hquote, hsqueeze]

theorem inside_of_quoted {inner : List Char} (h : Quoted '"' inner) :
    StringState.inside.after? inner = some .inside ∧ squeeze .inside inner = inner := by
  induction h with
  | nil => exact ⟨rfl, rfl⟩
  | char hquote hslash hfeed _ ih =>
    simp [StringState.after?, StringState.next, squeeze, hquote, hslash, hfeed, ih]
  | escape hfeed _ ih =>
    simp [StringState.after?, StringState.next, squeeze, hfeed, ih]

theorem squeezes_string {inner : List Char} (h : Quoted '"' inner) :
    Squeezes ('"' :: inner ++ ['"']) ('"' :: inner ++ ['"']) := by
  obtain ⟨hafter, hsqueeze⟩ := inside_of_quoted h
  have hopen : StringState.outside.after? ['"'] = some .inside := rfl
  have hclosed : StringState.outside.after? ('"' :: inner) = some .inside := by
    rw [← List.singleton_append, StringState.after?_append, hopen, Option.bind_some, hafter]
  refine ⟨?_, ?_⟩
  · rw [StringState.after?_append, hclosed]
    rfl
  · rw [squeeze_append hclosed, ← List.singleton_append, squeeze_append hopen, hsqueeze]
    rfl

theorem squeezes_intercalate {separator keptSeparator : List Char}
    (hseparator : Squeezes separator keptSeparator) {items kepts : List (List Char)}
    (h : List.Forall₂ Squeezes items kepts) :
    Squeezes (separator.intercalate items) (keptSeparator.intercalate kepts) := by
  induction h with
  | nil => exact squeezes_nil
  | cons hitem hrest ih =>
    cases hrest with
    | nil => simpa using hitem
    | cons =>
      rw [List.intercalate_cons_cons, List.intercalate_cons_cons]
      exact (hitem.append hseparator).append ih

end Closure

section Parts

variable {cs blanks kept : List Char}

theorem StringState.eq_outside_of_blanks {state : StringState}
    (hblanks : ∀ c ∈ blanks, Text.isBlank c) (h : state.after? blanks = some .outside) :
    state = .outside := by
  induction blanks generalizing state with
  | nil => exact Option.some.inj h
  | cons c blanks ih =>
    obtain ⟨hc, hblanks⟩ := List.forall_mem_cons.mp hblanks
    have hquote : c ≠ '"' := by rintro rfl; exact absurd hc (by decide)
    rw [StringState.after?] at h
    split at h
    · contradiction
    · have hnext := ih hblanks h
      cases state with
      | outside => rfl
      | inside =>
        rw [StringState.next] at hnext
        split at hnext <;> contradiction
      | escaped => exact nomatch hnext

theorem Squeezes.of_append_blanks (hblanks : ∀ c ∈ blanks, Text.isBlank c)
    (h : Squeezes (cs ++ blanks) kept) : Squeezes cs kept := by
  obtain ⟨hclosed, hsqueeze⟩ := h
  rw [StringState.after?_append] at hclosed
  obtain ⟨between, hcs, hbetween⟩ := Option.bind_eq_some_iff.mp hclosed
  obtain rfl := StringState.eq_outside_of_blanks hblanks hbetween
  rw [squeeze_append hcs, (squeezes_blanks hblanks).squeeze_eq, List.append_nil] at hsqueeze
  exact ⟨hcs, hsqueeze⟩

theorem Squeezes.of_blanks_append (hblanks : ∀ c ∈ blanks, Text.isBlank c)
    (h : Squeezes (blanks ++ cs) kept) : Squeezes cs kept := by
  have hfirst := squeezes_blanks hblanks
  obtain ⟨hclosed, hsqueeze⟩ := h
  rw [StringState.after?_append, hfirst.closed, Option.bind_some] at hclosed
  rw [squeeze_append hfirst.closed, hfirst.squeeze_eq, List.nil_append] at hsqueeze
  exact ⟨hclosed, hsqueeze⟩

theorem Squeezes.trimChars (h : Squeezes cs kept) : Squeezes (Text.trimChars cs) kept := by
  obtain ⟨before, after, hcs, hbefore, hafter⟩ := Text.exists_eq_blanks_append_trimChars cs
  rw [hcs] at h
  exact (h.of_blanks_append hbefore).of_append_blanks hafter

theorem Squeezes.exists_line {line rest : List Char} (h : Squeezes (line ++ '\n' :: rest) kept) :
    ∃ first others, kept = first ++ others ∧ Squeezes line first ∧ Squeezes rest others := by
  obtain ⟨hclosed, hsqueeze⟩ := h
  rw [StringState.after?_append] at hclosed
  obtain ⟨between, hline, hbetween⟩ := Option.bind_eq_some_iff.mp hclosed
  rw [StringState.after?] at hbetween
  split at hbetween
  · contradiction
  · next houtside =>
    obtain rfl : between = .outside := by simpa using houtside
    refine ⟨squeeze .outside line, squeeze .outside rest, ?_, ⟨hline, rfl⟩, ⟨hbetween, rfl⟩⟩
    rw [← hsqueeze, squeeze_append hline]
    rfl

end Parts

section Values

theorem squeezes_stringText (s : String) :
    Squeezes (stringText s).toList (stringText s).toList := by
  rw [stringText, String.toList_ofList]
  exact squeezes_string (Quoted.flatMap fun c _ => quoted_escapedChar c)

theorem isNumeral_of_isBlank (c : Char) (h : Text.isBlank c) : isNumeral c = false := by
  have hranges : ∀ n ∈ List.range' 0x2B 75, ∀ range ∈ Text.blankRanges,
      ¬(range.1 ≤ n ∧ n ≤ range.2) := by decide
  cases hnumeral : isNumeral c with
  | false => rfl
  | true =>
    have hword : ∀ d ∈ ['+', '-', '.', 'e', 'n', 'u', 'l'], 0x2B ≤ d.toNat ∧ d.toNat < 0x76 := by
      simp
    have hc : 0x2B ≤ c.toNat ∧ c.toNat < 0x76 := by
      rcases Bool.or_eq_true_iff.mp hnumeral with hdigit | hother
      · have hdigit : 48 ≤ c.toNat ∧ c.toNat ≤ 57 := Char.isDigit_iff_toNat.mp hdigit
        omega
      · exact hword c (List.contains_iff_mem.mp hother)
    obtain ⟨range, hrange, hin⟩ := List.any_eq_true.mp h
    exact absurd (by simpa using hin)
      (hranges c.toNat (List.mem_range'_1.mpr (by omega)) range hrange)

theorem squeezes_text (n : Number) : Squeezes n.text.toList n.text.toList :=
  squeezes_of_all (by decide) isNumeral_of_isBlank (isNumeral_text n)

theorem squeezes_lineBreak (level : Nat) : Squeezes (lineBreak level).toList [] := by
  have hbreak : (lineBreak level).toList = '\n' :: List.replicate (2 * level) ' ' := by
    simp [lineBreak]
  rw [hbreak]
  exact squeezes_lineFeed.append (squeezes_indent (2 * level))

theorem squeezes_block {opener closer : String}
    (hopener : Squeezes opener.toList opener.toList)
    (hcloser : Squeezes closer.toList closer.toList) (level : Nat) {items kepts : List String}
    (h : List.Forall₂ (fun item kept => Squeezes item.toList kept.toList) items kepts) :
    Squeezes (block opener closer level items).toList
      (opener ++ ",".intercalate kepts ++ closer).toList := by
  cases h with
  | nil => simpa [block] using hopener.append hcloser
  | @cons item kept items kepts hitem hitems =>
    have hall : List.Forall₂ Squeezes ((item :: items).map String.toList)
        ((kept :: kepts).map String.toList) := by
      simpa [List.forall₂_map_left_iff, List.forall₂_map_right_iff] using And.intro hitem hitems
    have hcomma : Squeezes [','] [','] := ⟨rfl, rfl⟩
    have hseparator : Squeezes ("," ++ lineBreak (level + 1)).toList [','] := by
      rw [String.toList_append]
      exact hcomma.append (squeezes_lineBreak (level + 1))
    have hlines := squeezes_intercalate hseparator hall
    have hblock := ((hopener.append (squeezes_lineBreak (level + 1))).append hlines).append
      ((squeezes_lineBreak level).append hcloser)
    simpa [block, String.toList_intercalate] using hblock

mutual

/-- Without its blanks the pretty text of a value is the compact one. -/
theorem squeezes_prettyAt (level : Nat) :
    (value : Json) → Squeezes (prettyAt level value).toList value.compact.toList
  | .null => show Squeezes "null".toList "null".toList from ⟨rfl, rfl⟩
  | .bool true => show Squeezes "true".toList "true".toList from ⟨rfl, rfl⟩
  | .bool false => show Squeezes "false".toList "false".toList from ⟨rfl, rfl⟩
  | .number n => squeezes_text n
  | .string s => squeezes_stringText s
  | .array items =>
    squeezes_block ⟨rfl, rfl⟩ ⟨rfl, rfl⟩ level (squeezes_prettyItems (level + 1) items)
  | .object members =>
    squeezes_block ⟨rfl, rfl⟩ ⟨rfl, rfl⟩ level (squeezes_prettyMembers (level + 1) members)

theorem squeezes_prettyItems (level : Nat) : (items : List Json) →
    List.Forall₂ (fun item kept => Squeezes item.toList kept.toList) (prettyItems level items)
      (compactItems items)
  | [] => .nil
  | item :: rest => .cons (squeezes_prettyAt level item) (squeezes_prettyItems level rest)

theorem squeezes_prettyMembers (level : Nat) : (members : List (String × Json)) →
    List.Forall₂ (fun member kept => Squeezes member.toList kept.toList)
      (prettyMembers level members) (compactMembers members)
  | [] => .nil
  | (key, value) :: rest => by
    have hcolon : Squeezes ": ".toList ":".toList := ⟨rfl, rfl⟩
    refine .cons ?_ (squeezes_prettyMembers level rest)
    simp only [String.toList_append]
    exact ((squeezes_stringText key).append hcolon).append (squeezes_prettyAt level value)

end

end Values

section First

theorem positional_ne_nil (digits : List Char) (point : Int) :
    Decimal.positional digits point ≠ [] := by
  fun_cases Decimal.positional digits point with
  | case1 => simp
  | case2 hpoint hlength =>
    -- A point behind all digits is behind a zero if there are none.
    intro hnil
    obtain ⟨hdigits, hzeros⟩ := List.append_eq_nil_iff.mp hnil
    have hcount : point.toNat - digits.length = 0 := by
      simpa [Decimal.zeros] using congrArg List.length hzeros
    have hlength : digits.length = 0 := congrArg List.length hdigits
    omega
  | case3 => simp

theorem signed_ne_nil (negative : Bool) {digits : List Char} (h : digits ≠ []) :
    (Decimal.signed negative digits).toList ≠ [] := by
  rw [Decimal.signed, String.toList_ofList]
  cases negative with
  | false => exact h
  | true => simp

theorem floatText_ne_nil (x : Binary64) : (floatText x).toList ≠ [] := by
  fun_cases floatText x with
  | case1 negative => exact signed_ne_nil negative (by simp)
  | case2 negative mantissa exponent _ _ decimal digits point =>
    refine signed_ne_nil negative ?_
    split
    · dsimp only
      split
      · exact positional_ne_nil digits point
      · simp
    · simp [Decimal.scientific]
  | case3 => decide
  | case4 => decide

theorem text_ne_nil (n : Number) : n.text.toList ≠ [] := by
  cases n with
  | natural n =>
    show (toString n).toList ≠ []
    simp
  | negative n =>
    cases n with
    | ofNat n =>
      show (toString n).toList ≠ []
      simp
    | negSucc n =>
      show ("-" ++ Nat.repr (n + 1)).toList ≠ []
      simp
  | float x => exact floatText_ne_nil x

theorem exists_block_eq_cons {opener : String} {c : Char} (hopener : opener.toList = [c])
    (closer : String) (level : Nat) (items : List String) :
    ∃ cs, (block opener closer level items).toList = c :: cs := by
  fun_cases block opener closer level items with
  | case1 => exact ⟨closer.toList, by simp [hopener]⟩
  | case2 => simp [hopener]

theorem exists_prettyAt_eq_cons (level : Nat) (value : Json) :
    ∃ c cs, (prettyAt level value).toList = c :: cs ∧ Text.isBlank c = false := by
  cases value with
  | null => exact ⟨'n', _, by simp only [prettyAt]; rfl, by decide⟩
  | bool b =>
    cases b with
    | false => exact ⟨'f', _, by simp only [prettyAt]; rfl, by decide⟩
    | true => exact ⟨'t', _, by simp only [prettyAt]; rfl, by decide⟩
  | number n =>
    obtain ⟨c, cs, htext⟩ := List.exists_cons_of_ne_nil (text_ne_nil n)
    have hc : isNumeral c := isNumeral_text n c (by simp [htext])
    refine ⟨c, cs, by rw [prettyAt, htext], ?_⟩
    by_contra hblank
    simp [isNumeral_of_isBlank c (by simpa using hblank)] at hc
  | string s => exact ⟨'"', _, by rw [prettyAt, stringText, String.toList_ofList]; rfl, by decide⟩
  | array items =>
    have hopener : "[".toList = ['['] := rfl
    obtain ⟨cs, hblock⟩ := exists_block_eq_cons hopener "]" level (prettyItems (level + 1) items)
    exact ⟨'[', cs, by rw [prettyAt, hblock], by decide⟩
  | object members =>
    have hopener : "\x7b".toList = ['\x7b'] := rfl
    obtain ⟨cs, hblock⟩ := exists_block_eq_cons hopener "\x7d" level
      (prettyMembers (level + 1) members)
    exact ⟨'\x7b', cs, by rw [prettyAt, hblock], by decide⟩

theorem compact_ne_empty (value : Json) : value.compact ≠ "" := by
  unfold compact
  cases value with
  | null => simp
  | bool b => cases b <;> simp
  | number n => exact mt String.toList_eq_nil_iff.mpr (text_ne_nil n)
  | string s => simp [stringText]
  | array items => simp
  | object members => simp

end First

end FlowScript.Json
