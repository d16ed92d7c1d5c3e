import FlowScript.Proofs.Layout.Nesting

/-! The brackets that are open somewhere in a nested text. They are told by the grammar of nested
texts alone: a bracket is open as long as what stands behind it is nested. A reading of the text
from its start comes to the same brackets, and what stands behind them closes them one by one. -/

namespace FlowScript.Layout

structure Unclosed where
  bracket : Bracket
  line : Nat

inductive OpenBehind : List Char → List Unclosed → Prop
  | nested {cs : List Char} (h : Nested cs) : OpenBehind cs []
  | opener {before inner : List Char} {c : Char} {shape : Bracket} {outer : List Unclosed}
      (hbefore : OpenBehind before outer) (hopen : Bracket.opening? c = some shape)
      (hinner : Nested inner) :
      OpenBehind (before ++ c :: inner) (⟨shape, before.count '\n'⟩ :: outer)

theorem Reading.read_of_openBehind (level : Nat → Nat) {cs : List Char} {opens : List Unclosed}
    (h : OpenBehind cs opens) :
    (start []).read level cs =
      ⟨.outside, cs.count '\n', opens.map fun o => ⟨o.bracket, level o.line⟩⟩ := by
  induction h with
  | nested h => rw [start, read_nested h, Nat.zero_add, List.map_nil]
  | @opener before inner c shape outer _ hopen hinner ih =>
    have hfeed := ne_lineFeed_of_opening hopen
    rw [read_append, ih, read_cons, next_outside hfeed, next_opening hopen,
      stackAfter_opening hopen, read_nested hinner, List.count_append, List.count_cons_of_ne hfeed]
    rfl

section Cuts

variable {cs ds : List Char} {opens more : List Unclosed} {shapes : List Bracket}

theorem OpenBehind.unique (h : OpenBehind cs opens) (h' : OpenBehind cs more) : opens = more := by
  have hstack := (Reading.read_of_openBehind id h).symm.trans (Reading.read_of_openBehind id h')
  refine (List.map_inj_right fun o o' ho => ?_).mp (congrArg Reading.stack hstack)
  obtain ⟨bracket, line⟩ := o
  obtain ⟨bracket', line'⟩ := o'
  simpa using ho

theorem OpenBehind.append_nested (h : OpenBehind cs opens) (hds : Nested ds) :
    OpenBehind (cs ++ ds) opens := by
  cases h with
  | nested hcs => exact .nested (hcs.append hds)
  | opener hbefore hopen hinner =>
    rw [List.append_assoc, List.cons_append]
    exact .opener hbefore hopen (hinner.append hds)

def shiftLines (lines : Nat) (opens : List Unclosed) : List Unclosed :=
  opens.map fun o => { o with line := lines + o.line }

theorem OpenBehind.append (h : OpenBehind cs opens) (h' : OpenBehind ds more) :
    OpenBehind (cs ++ ds) (shiftLines (cs.count '\n') more ++ opens) := by
  induction h' with
  | nested hds => exact h.append_nested hds
  | opener hbefore hopen hinner ih =>
    have hall := ih.opener hopen hinner
    rw [List.append_assoc, List.count_append] at hall
    exact hall

inductive Closes : List Bracket → List Char → Prop
  | nested {cs : List Char} (h : Nested cs) : Closes [] cs
  | closer {inner rest : List Char} {c : Char} {shape : Bracket} {shapes : List Bracket}
      (hinner : Nested inner) (hclose : Bracket.closing? c = some shape)
      (hrest : Closes shapes rest) : Closes (shape :: shapes) (inner ++ c :: rest)

theorem Closes.append_left (hcs : Nested cs) (h : Closes shapes ds) : Closes shapes (cs ++ ds) := by
  cases h with
  | nested h => exact .nested (hcs.append h)
  | closer hinner hclose hrest =>
    rw [← List.append_assoc]
    exact .closer (hcs.append hinner) hclose hrest

theorem Closes.append_closer (h : Closes shapes cs) {c : Char} {shape : Bracket}
    (hclose : Bracket.closing? c = some shape) (hds : Nested ds) :
    Closes (shapes ++ [shape]) (cs ++ c :: ds) := by
  induction h with
  | nested h => exact .closer h hclose (.nested hds)
  | closer hinner hclose' _ ih =>
    rw [List.append_assoc, List.cons_append]
    exact .closer hinner hclose' ih

theorem Nested.of_openBehind (h : OpenBehind cs opens)
    (hds : Closes (opens.map Unclosed.bracket) ds) : Nested (cs ++ ds) := by
  induction h generalizing ds with
  | nested h =>
    cases hds with
    | nested hds => exact h.append hds
  | @opener before inner c shape outer _ hopen hinner ih =>
    cases hds with
    | @closer inner' rest closer _ _ hinner' hclose hrest =>
      have hpair : Nested (c :: ((inner ++ inner') ++ [closer])) :=
        nested_brackets hopen hclose (hinner.append hinner')
      simpa using ih (hrest.append_left hpair)

theorem Nested.of_plain {c : Char} (hc : isPlain c) (h : Nested (c :: cs)) : Nested cs := by
  simp only [isPlain, isOpener, Bool.and_eq_true, Bool.not_eq_true'] at hc
  cases h with
  | plain _ rest => exact rest
  | quoted hquote _ _ => simp [hquote] at hc
  | bracket hopen _ _ _ => simp [hopen] at hc

theorem not_nested_closer {c : Char} {shape : Bracket} (hc : Bracket.closing? c = some shape) :
    ¬Nested (c :: cs) := by
  intro h
  cases h with
  | plain hplain _ => simp [isPlain, isCloser, hc] at hplain
  | quoted hquote _ _ => rcases isQuote_cases hquote with rfl | rfl | rfl <;> cases hc
  | bracket hopen _ _ _ =>
    rcases opening?_cases hopen with ⟨rfl, _⟩ | ⟨rfl, _⟩ | ⟨rfl, _⟩ <;> cases hc

theorem Closes.of_plain {c : Char} (hc : isPlain c) (h : Closes shapes (c :: cs)) :
    Closes shapes cs := by
  generalize htext : c :: cs = text at h
  cases h with
  | nested h => exact .nested (Nested.of_plain hc (htext ▸ h))
  | @closer inner rest closer shape shapes hinner hclose hrest =>
    rcases List.cons_eq_append_iff.mp htext with ⟨rfl, hcons⟩ | ⟨inner', rfl, rfl⟩
    · obtain ⟨rfl, -⟩ := List.cons.inj hcons
      simp [isPlain, isCloser, hclose] at hc
    · exact .closer (hinner.of_plain hc) hclose hrest

theorem Closes.of_closer {c : Char} {shape : Bracket} (hc : Bracket.closing? c = some shape)
    (h : Closes shapes (c :: cs)) : ∃ outer, shapes = shape :: outer ∧ Closes outer cs := by
  generalize htext : c :: cs = text at h
  cases h with
  | nested h => exact absurd (htext ▸ h) (not_nested_closer hc)
  | @closer inner rest closer shape' shapes hinner hclose hrest =>
    rcases List.cons_eq_append_iff.mp htext with ⟨rfl, hcons⟩ | ⟨inner', rfl, -⟩
    · obtain ⟨rfl, rfl⟩ := List.cons.inj hcons
      obtain rfl := Option.some.inj (hc.symm.trans hclose)
      exact ⟨shapes, rfl, hrest⟩
    · exact absurd hinner (not_nested_closer hc)

/-- Outside of quotes a nested text can be cut in two: brackets that are open behind the first part
are closed by the second one. -/
def IsCut (cs ds : List Char) : Prop :=
  ∃ opens, OpenBehind cs opens ∧ Closes (opens.map Unclosed.bracket) ds

def EndsQuotes (cs : List Char) : Prop :=
  ∃ inner quote rest, cs = inner ++ quote :: rest ∧ isQuote quote ∧ '\n' ∉ inner

theorem IsCut.nested (h : IsCut cs ds) : Nested (cs ++ ds) := by
  obtain ⟨opens, hopens, hcloses⟩ := h
  exact .of_openBehind hopens hcloses

theorem isCut_nil (h : Nested ds) : IsCut [] ds :=
  ⟨[], .nested .nil, .nested h⟩

theorem bracket_shiftLines (lines : Nat) (opens : List Unclosed) :
    (shiftLines lines opens).map Unclosed.bracket = opens.map Unclosed.bracket := by
  rw [shiftLines, List.map_map]
  rfl

theorem IsCut.append_left {front : List Char} (hfront : Nested front) (h : IsCut cs ds) :
    IsCut (front ++ cs) ds := by
  obtain ⟨opens, hopens, hcloses⟩ := h
  refine ⟨_, (OpenBehind.nested hfront).append hopens, ?_⟩
  rwa [List.append_nil, bracket_shiftLines]

theorem IsCut.brackets (h : IsCut cs ds) {opener closer : Char} {shape : Bracket}
    (hopen : Bracket.opening? opener = some shape) (hclose : Bracket.closing? closer = some shape)
    {rest : List Char} (hrest : Nested rest) : IsCut (opener :: cs) (ds ++ closer :: rest) := by
  obtain ⟨opens, hopens, hcloses⟩ := h
  refine ⟨_, (OpenBehind.opener (.nested .nil) hopen .nil).append hopens, ?_⟩
  rw [List.map_append, bracket_shiftLines]
  exact hcloses.append_closer hclose hrest

theorem EndsQuotes.append_right (h : EndsQuotes cs) (ds : List Char) : EndsQuotes (cs ++ ds) := by
  obtain ⟨inner, quote, rest, rfl, hquote, hinner⟩ := h
  exact ⟨inner, quote, rest ++ ds, by simp, hquote, hinner⟩

/-- A nested text is cut either outside of quotes or between two of them. The induction is on the
whole text. -/
theorem isCut_or_endsQuotes {text : List Char} (h : Nested text) (htext : text = cs ++ ds) :
    IsCut cs ds ∨ EndsQuotes ds := by
  induction h generalizing cs ds with
  | nil =>
    obtain ⟨rfl, rfl⟩ := List.append_eq_nil_iff.mp htext.symm
    exact .inl (isCut_nil .nil)
  | @plain c text hc hrest ih =>
    rcases List.cons_eq_append_iff.mp htext with ⟨rfl, rfl⟩ | ⟨front, rfl, hfront⟩
    · exact .inl (isCut_nil (.plain hc hrest))
    · exact (ih hfront).imp_left (IsCut.append_left (.plain hc .nil))
  | @quoted quote inner text hquote inside hrest ih =>
    rcases List.cons_eq_append_iff.mp htext with ⟨rfl, rfl⟩ | ⟨front, rfl, hfront⟩
    · exact .inl (isCut_nil (.quoted hquote inside hrest))
    · rcases List.append_eq_append_iff.mp hfront with ⟨back, rfl, hback⟩ | ⟨back, rfl, rfl⟩
      · rcases List.cons_eq_append_iff.mp hback with ⟨rfl, rfl⟩ | ⟨behind, rfl, hbehind⟩
        · exact .inr ⟨[], quote, text, rfl, hquote, List.not_mem_nil⟩
        · have hsplit : quote :: (inner ++ quote :: behind) =
              quote :: (inner ++ [quote]) ++ behind := by simp
          rw [hsplit]
          exact (ih hbehind).imp_left (IsCut.append_left (nested_quotes hquote inside))
      · -- The rest of the quoted piece stands behind the cut.
        have hfeed : '\n' ∉ front ++ back := List.count_eq_zero.mp inside.count_lineFeed
        refine .inr ⟨back, quote, text, rfl, hquote, fun hmem => hfeed ?_⟩
        exact List.mem_append_right front hmem
  | @bracket opener closer shape inner text hopen hclose hinner hrest ihinner ih =>
    rcases List.cons_eq_append_iff.mp htext with ⟨rfl, rfl⟩ | ⟨front, rfl, hfront⟩
    · exact .inl (isCut_nil (.bracket hopen hclose hinner hrest))
    · rcases List.append_eq_append_iff.mp hfront with ⟨back, rfl, hback⟩ | ⟨back, rfl, rfl⟩
      · rcases List.cons_eq_append_iff.mp hback with ⟨rfl, rfl⟩ | ⟨behind, rfl, hbehind⟩
        · -- The cut is right in front of the closing bracket, so the whole inside is before it.
          rw [List.append_nil]
          exact (ihinner (List.append_nil _).symm).imp
            (fun h => h.brackets hopen hclose hrest) (fun h => h.append_right _)
        · have hsplit : opener :: (inner ++ closer :: behind) =
              opener :: (inner ++ [closer]) ++ behind := by simp
          rw [hsplit]
          exact (ih hbehind).imp_left (IsCut.append_left (nested_brackets hopen hclose hinner))
      · exact (ihinner rfl).imp (fun h => h.brackets hopen hclose hrest) (fun h => h.append_right _)

theorem isCut_of_lineFeed {rest : List Char} (h : Nested (cs ++ (ds ++ '\n' :: rest)))
    (hds : ∀ c ∈ ds, isPlain c) : IsCut cs (ds ++ '\n' :: rest) := by
  refine (isCut_or_endsQuotes h rfl).resolve_right ?_
  rintro ⟨inner, quote, others, hcut, hquote, hinner⟩
  rcases List.append_eq_append_iff.mp hcut with ⟨back, rfl, hback⟩ | ⟨back, rfl, hback⟩
  · rcases List.cons_eq_append_iff.mp hback with ⟨rfl, hcons⟩ | ⟨behind, rfl, -⟩
    · obtain ⟨rfl, -⟩ := List.cons.inj hcons
      exact absurd hquote (by decide)
    · simp at hinner
  · rcases List.cons_eq_append_iff.mp hback with ⟨rfl, hcons⟩ | ⟨behind, rfl, -⟩
    · obtain ⟨rfl, -⟩ := List.cons.inj hcons
      exact absurd hquote (by decide)
    · have hplain := hds quote (by simp)
      simp [isPlain, hquote] at hplain

theorem Closes.of_append_plain {front : List Char} (hfront : ∀ c ∈ front, isPlain c)
    (h : Closes shapes (front ++ ds)) : Closes shapes ds := by
  induction front with
  | nil => exact h
  | cons c front ih =>
    obtain ⟨hc, hfront⟩ := List.forall_mem_cons.mp hfront
    exact ih hfront (h.of_plain hc)

theorem IsCut.move_plain {front : List Char} (hfront : ∀ c ∈ front, isPlain c)
    (h : IsCut cs (front ++ ds)) : IsCut (cs ++ front) ds := by
  obtain ⟨opens, hopens, hcloses⟩ := h
  have hnested : Nested front := nested_of_isPlain (List.all_eq_true.mpr hfront)
  exact ⟨opens, hopens.append_nested hnested, hcloses.of_append_plain hfront⟩

theorem IsCut.move_closer {c : Char} {shape : Bracket} (hc : Bracket.closing? c = some shape)
    (h : IsCut cs (c :: ds)) :
    (∃ line outer, OpenBehind cs (⟨shape, line⟩ :: outer)) ∧ IsCut (cs ++ [c]) ds := by
  obtain ⟨opens, hopens, hcloses⟩ := h
  obtain ⟨shapes, hshapes, hrest⟩ := hcloses.of_closer hc
  obtain ⟨⟨bracket, line⟩, outer, rfl, rfl, rfl⟩ := List.map_eq_cons_iff.mp hshapes
  refine ⟨⟨line, outer, hopens⟩, outer, ?_, hrest⟩
  cases hopens with
  | @opener before inner opener _ _ hbefore hopen hinner =>
    rw [List.append_assoc, List.cons_append]
    exact hbefore.append_nested (nested_brackets hopen hc hinner)

theorem IsCut.move_closers {closers : List Char} (hclosers : ∀ c ∈ closers, isCloser c)
    (h : IsCut cs (closers ++ ds)) : IsCut (cs ++ closers) ds := by
  induction closers generalizing cs with
  | nil => rwa [List.append_nil]
  | cons c closers ih =>
    obtain ⟨hc, hclosers⟩ := List.forall_mem_cons.mp hclosers
    obtain ⟨shape, hclose⟩ := Option.isSome_iff_exists.mp hc
    have hnext := ih hclosers (h.move_closer hclose).2
    rwa [List.append_assoc, List.singleton_append] at hnext

end Cuts

end FlowScript.Layout
