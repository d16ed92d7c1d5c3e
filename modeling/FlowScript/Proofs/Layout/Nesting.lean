import FlowScript.Proofs.Layout.Lines

/-! Texts whose brackets are nested, those between quotes left out. Such a text leaves the stack of
open brackets as it was, whatever the levels of its lines. -/

namespace FlowScript.Layout

/-- The inside of a quoted piece of a line. A backslash takes the next character with it. -/
inductive Quoted (quote : Char) : List Char → Prop
  | nil : Quoted quote []
  | char {c : Char} {cs : List Char} (hquote : c ≠ quote) (hslash : c ≠ '\\') (hfeed : c ≠ '\n')
      (rest : Quoted quote cs) : Quoted quote (c :: cs)
  | escape {c : Char} {cs : List Char} (hfeed : c ≠ '\n') (rest : Quoted quote cs) :
      Quoted quote ('\\' :: c :: cs)

def isPlain (c : Char) : Bool :=
  !isOpener c && !isCloser c && !isQuote c

inductive Nested : List Char → Prop
  | nil : Nested []
  | plain {c : Char} {cs : List Char} (hc : isPlain c) (rest : Nested cs) : Nested (c :: cs)
  | quoted {quote : Char} {inner cs : List Char} (hquote : isQuote quote)
      (inside : Quoted quote inner) (rest : Nested cs) : Nested (quote :: (inner ++ quote :: cs))
  | bracket {opener closer : Char} {shape : Bracket} {inner cs : List Char}
      (hopen : Bracket.opening? opener = some shape) (hclose : Bracket.closing? closer = some shape)
      (inside : Nested inner) (rest : Nested cs) : Nested (opener :: (inner ++ closer :: cs))

section Closure

theorem Quoted.append {quote : Char} {cs ds : List Char} (hcs : Quoted quote cs)
    (hds : Quoted quote ds) : Quoted quote (cs ++ ds) := by
  induction hcs with
  | nil => exact hds
  | char hquote hslash hfeed _ ih => exact .char hquote hslash hfeed ih
  | escape hfeed _ ih => exact .escape hfeed ih

theorem Quoted.flatMap {α : Type} {quote : Char} {f : α → List Char} {xs : List α}
    (h : ∀ x ∈ xs, Quoted quote (f x)) : Quoted quote (xs.flatMap f) := by
  induction xs with
  | nil => exact .nil
  | cons x xs ih =>
    obtain ⟨hx, hxs⟩ := List.forall_mem_cons.mp h
    exact hx.append (ih hxs)

theorem Quoted.of_all {quote : Char} {cs : List Char}
    (h : cs.all fun c => c != quote && c != '\\' && c != '\n') : Quoted quote cs := by
  induction cs with
  | nil => exact .nil
  | cons c cs ih =>
    simp only [List.all_cons, Bool.and_eq_true, bne_iff_ne] at h
    obtain ⟨⟨⟨hquote, hslash⟩, hfeed⟩, hcs⟩ := h
    exact .char hquote hslash hfeed (ih hcs)

theorem Nested.append {cs ds : List Char} (hcs : Nested cs) (hds : Nested ds) :
    Nested (cs ++ ds) := by
  induction hcs with
  | nil => exact hds
  | plain hc _ ih => exact .plain hc ih
  | quoted hquote inside _ ih =>
    rw [List.cons_append, List.append_assoc, List.cons_append]
    exact .quoted hquote inside ih
  | bracket hopen hclose inside _ _ ih =>
    rw [List.cons_append, List.append_assoc, List.cons_append]
    exact .bracket hopen hclose inside ih

theorem nested_of_isPlain {cs : List Char} (h : cs.all isPlain) : Nested cs := by
  induction cs with
  | nil => exact .nil
  | cons c cs ih =>
    obtain ⟨hc, hcs⟩ := Bool.and_eq_true_iff.mp h
    exact .plain hc (ih hcs)

theorem nested_lineFeed : Nested ['\n'] :=
  nested_of_isPlain (by decide)

theorem nested_quotes {quote : Char} {inner : List Char} (hquote : isQuote quote)
    (h : Quoted quote inner) : Nested (quote :: (inner ++ [quote])) :=
  .quoted hquote h .nil

theorem nested_brackets {opener closer : Char} {shape : Bracket} {inner : List Char}
    (hopen : Bracket.opening? opener = some shape) (hclose : Bracket.closing? closer = some shape)
    (h : Nested inner) : Nested (opener :: (inner ++ [closer])) :=
  .bracket hopen hclose h .nil

theorem nested_intercalate {separator : List Char} (hseparator : Nested separator)
    {items : List (List Char)} (h : ∀ item ∈ items, Nested item) :
    Nested (separator.intercalate items) := by
  induction items with
  | nil => exact .nil
  | cons item rest ih =>
    obtain ⟨hitem, hrest⟩ := List.forall_mem_cons.mp h
    cases rest with
    | nil => simpa using hitem
    | cons next rest =>
      rw [List.intercalate_cons_cons]
      exact (hitem.append hseparator).append (ih hrest)

end Closure

section Characters

variable {c : Char} {shape : Bracket}

theorem stackAfter_of_isPlain (hc : isPlain c) (level : Nat) (stack : List Open) :
    stackAfter level stack c = stack := by
  simp only [isPlain, isOpener, isCloser, Bool.and_eq_true, Bool.not_eq_true',
    Option.isSome_eq_false_iff, Option.isNone_iff_eq_none] at hc
  rw [stackAfter, hc.1.1, hc.1.2]

theorem next_of_isPlain (hc : isPlain c) : QuoteState.outside.next c = .outside := by
  simp only [isPlain, Bool.and_eq_true, Bool.not_eq_true'] at hc
  rw [QuoteState.next, if_neg (by simp [hc.2])]

theorem isQuote_cases (hc : isQuote c) : c = '\'' ∨ c = '"' ∨ c = '\x60' := by
  simpa [isQuote, or_assoc] using hc

theorem opening?_cases (hc : Bracket.opening? c = some shape) :
    (c = '\x7b' ∧ shape = .brace) ∨ (c = '(' ∧ shape = .paren) ∨ (c = '[' ∧ shape = .square) := by
  unfold Bracket.opening? at hc
  split at hc <;> simp_all

theorem closing?_cases (hc : Bracket.closing? c = some shape) :
    (c = '\x7d' ∧ shape = .brace) ∨ (c = ')' ∧ shape = .paren) ∨ (c = ']' ∧ shape = .square) := by
  unfold Bracket.closing? at hc
  split at hc <;> simp_all

theorem isPlain_of_class {p : Char → Bool}
    (hp : ['\x7b', '(', '[', '\x7d', ')', ']', '\'', '"', '\x60'].all (!p ·)) (hc : p c) :
    isPlain c := by
  have hne : ∀ d ∈ ['\x7b', '(', '[', '\x7d', ')', ']', '\'', '"', '\x60'], c ≠ d := by
    rintro d hd rfl
    have hd' := List.all_eq_true.mp hp c hd
    rw [hc] at hd'
    contradiction
  have hopen : Bracket.opening? c = none := by
    by_contra h
    obtain ⟨shape, hshape⟩ := Option.ne_none_iff_exists'.mp h
    rcases opening?_cases hshape with ⟨rfl, _⟩ | ⟨rfl, _⟩ | ⟨rfl, _⟩ <;> exact hne _ (by decide) rfl
  have hclose : Bracket.closing? c = none := by
    by_contra h
    obtain ⟨shape, hshape⟩ := Option.ne_none_iff_exists'.mp h
    rcases closing?_cases hshape with ⟨rfl, _⟩ | ⟨rfl, _⟩ | ⟨rfl, _⟩ <;> exact hne _ (by decide) rfl
  have hquote : isQuote c = false := by
    by_contra h
    rcases isQuote_cases (by simpa using h) with rfl | rfl | rfl <;> exact hne _ (by decide) rfl
  rw [isPlain, isOpener, isCloser, hopen, hclose, hquote]
  rfl

theorem stackAfter_opening (hc : Bracket.opening? c = some shape) (level : Nat)
    (stack : List Open) : stackAfter level stack c = ⟨shape, level⟩ :: stack := by
  rw [stackAfter, hc]

theorem stackAfter_closing (hc : Bracket.closing? c = some shape) (level inner : Nat)
    (stack : List Open) : stackAfter level (⟨shape, inner⟩ :: stack) c = stack := by
  rcases closing?_cases hc with ⟨rfl, rfl⟩ | ⟨rfl, rfl⟩ | ⟨rfl, rfl⟩ <;> rfl

theorem next_opening (hc : Bracket.opening? c = some shape) :
    QuoteState.outside.next c = .outside := by
  rcases opening?_cases hc with ⟨rfl, _⟩ | ⟨rfl, _⟩ | ⟨rfl, _⟩ <;> rfl

theorem next_closing (hc : Bracket.closing? c = some shape) :
    QuoteState.outside.next c = .outside := by
  rcases closing?_cases hc with ⟨rfl, _⟩ | ⟨rfl, _⟩ | ⟨rfl, _⟩ <;> rfl

theorem ne_lineFeed_of_opening (hc : Bracket.opening? c = some shape) : c ≠ '\n' := by
  rintro rfl
  cases hc

theorem ne_lineFeed_of_closing (hc : Bracket.closing? c = some shape) : c ≠ '\n' := by
  rintro rfl
  cases hc

theorem ne_lineFeed_of_quote (hc : isQuote c) : c ≠ '\n' := by
  rintro rfl
  cases hc

theorem next_quote (hc : isQuote c) : QuoteState.outside.next c = .inside c :=
  if_pos hc

theorem inside_next_quote (hc : isQuote c) : (QuoteState.inside c).next c = .outside := by
  rcases isQuote_cases hc with rfl | rfl | rfl <;> rfl

theorem stackAfter_quote (hc : isQuote c) (level : Nat) (stack : List Open) :
    stackAfter level stack c = stack := by
  rcases isQuote_cases hc with rfl | rfl | rfl <;> rfl

end Characters

theorem Quoted.count_lineFeed {quote : Char} {inner : List Char} (h : Quoted quote inner) :
    inner.count '\n' = 0 := by
  induction h with
  | nil => rfl
  | char _ _ hfeed _ ih => rw [List.count_cons_of_ne hfeed, ih]
  | escape hfeed _ ih => rw [List.count_cons_of_ne (by decide), List.count_cons_of_ne hfeed, ih]

section Reading

/-- What is known behind a part of a text: the quotes, the number of the line, and the open brackets
with the levels of their lines. -/
structure Reading where
  quotes : QuoteState
  line : Nat
  stack : List Open

def Reading.start (stack : List Open) : Reading :=
  ⟨.outside, 0, stack⟩

variable (level : Nat → Nat)

def Reading.next (reading : Reading) (c : Char) : Reading where
  quotes := if c = '\n' then .outside else reading.quotes.next c
  line := if c = '\n' then reading.line + 1 else reading.line
  stack :=
    if c ≠ '\n' ∧ reading.quotes = .outside then stackAfter (level reading.line) reading.stack c
    else reading.stack

def Reading.read (reading : Reading) (cs : List Char) : Reading :=
  cs.foldl (Reading.next level) reading

namespace Reading

variable {level} {line : Nat} {stack : List Open}

theorem read_append (reading : Reading) (cs ds : List Char) :
    reading.read level (cs ++ ds) = (reading.read level cs).read level ds :=
  List.foldl_append

theorem read_cons (reading : Reading) (c : Char) (cs : List Char) :
    reading.read level (c :: cs) = (reading.next level c).read level cs :=
  rfl

theorem next_lineFeed (reading : Reading) :
    reading.next level '\n' = ⟨.outside, reading.line + 1, reading.stack⟩ := by
  simp [next]

theorem next_outside {c : Char} (hc : c ≠ '\n') :
    (⟨.outside, line, stack⟩ : Reading).next level c =
      ⟨QuoteState.outside.next c, line, stackAfter (level line) stack c⟩ := by
  simp [next, hc]

theorem next_quoted {quotes : QuoteState} (hquotes : quotes ≠ .outside) {c : Char}
    (hc : c ≠ '\n') :
    (⟨quotes, line, stack⟩ : Reading).next level c = ⟨quotes.next c, line, stack⟩ := by
  simp [next, hc, hquotes]

theorem read_line (level : Nat → Nat) (reading : Reading) {cs : List Char} (hcs : '\n' ∉ cs) :
    (reading.read level cs).line = reading.line ∧
      (reading.read level cs).stack =
        scanBrackets (level reading.line) reading.quotes reading.stack cs := by
  induction cs generalizing reading with
  | nil => cases hquotes : reading.quotes <;> exact ⟨rfl, rfl⟩
  | cons c cs ih =>
    obtain ⟨quotes, line, stack⟩ := reading
    obtain ⟨hc, hcs⟩ := List.ne_and_not_mem_of_not_mem_cons hcs
    rw [read_cons]
    cases quotes with
    | outside =>
      rw [next_outside (Ne.symm hc)]
      exact ih _ hcs
    | inside quote =>
      rw [next_quoted (by simp) (Ne.symm hc)]
      exact ih _ hcs
    | escaped quote =>
      rw [next_quoted (by simp) (Ne.symm hc)]
      exact ih _ hcs

theorem read_quoted {quote : Char} {inner : List Char} (h : Quoted quote inner) :
    (⟨.inside quote, line, stack⟩ : Reading).read level inner = ⟨.inside quote, line, stack⟩ := by
  induction h with
  | nil => rfl
  | char hquote hslash hfeed _ ih =>
    rw [read_cons, next_quoted (by simp) hfeed, QuoteState.next, if_neg hslash, if_neg hquote]
    exact ih
  | escape hfeed _ ih =>
    rw [read_cons, next_quoted (by simp) (by decide), QuoteState.next, if_pos rfl, read_cons,
      next_quoted (by simp) hfeed]
    exact ih

theorem read_nested {cs : List Char} (h : Nested cs) (line : Nat) (stack : List Open) :
    (⟨.outside, line, stack⟩ : Reading).read level cs = ⟨.outside, line + cs.count '\n', stack⟩ := by
  induction h generalizing line stack with
  | nil => rfl
  | @plain c cs hc _ ih =>
    rw [read_cons]
    -- Between brackets a line may end; the next one is read at a level of its own.
    by_cases hfeed : c = '\n'
    · subst hfeed
      rw [next_lineFeed, ih, List.count_cons_self, Nat.add_assoc, Nat.add_comm 1]
    · rw [next_outside hfeed, next_of_isPlain hc, stackAfter_of_isPlain hc, ih,
        List.count_cons_of_ne hfeed]
  | @quoted quote inner cs hquote inside _ ih =>
    have hfeed := ne_lineFeed_of_quote hquote
    rw [read_cons, next_outside hfeed, next_quote hquote, stackAfter_quote hquote, read_append,
      read_quoted inside, read_cons, next_quoted (by simp) hfeed, inside_next_quote hquote, ih,
      List.count_cons_of_ne hfeed, List.count_append, inside.count_lineFeed,
      List.count_cons_of_ne hfeed, Nat.zero_add]
  | @bracket opener closer shape inner cs hopen hclose _ _ ihinner ih =>
    have hfeed := ne_lineFeed_of_opening hopen
    have hfeed' := ne_lineFeed_of_closing hclose
    rw [read_cons, next_outside hfeed, next_opening hopen, stackAfter_opening hopen, read_append,
      ihinner, read_cons, next_outside hfeed', next_closing hclose, stackAfter_closing hclose, ih,
      List.count_cons_of_ne hfeed, List.count_append, List.count_cons_of_ne hfeed', Nat.add_assoc]

end Reading

end Reading

end FlowScript.Layout
