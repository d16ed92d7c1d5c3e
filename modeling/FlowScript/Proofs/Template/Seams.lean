import FlowScript.Proofs.Compile.PathTokens
import FlowScript.Proofs.Template.Placeholders

/-! Placeholders at the seams of joined texts. A text may leave a placeholder open at its end. Where
no text behind goes on with one, the placeholders of a join are those of its texts. -/

namespace FlowScript

open Text Endpoint

namespace Template

/-- What stands behind a dollar sign could be longer: a name, or a brace and a name, that ends the
text. -/
def isOpen : List Char → Bool
  | '\x7b' :: name => (afterIdent name).isEmpty
  | name => (afterIdent name).isEmpty

def openEnd? : List Char → Option (List Char)
  | [] => none
  | c :: cs =>
    if c = '$' then
      if isOpen cs then some cs else openEnd? (Token.afterDollar cs).2
    else openEnd? cs
termination_by cs => cs.length
decreasing_by
  · exact Nat.lt_succ_of_le (Token.length_afterDollar_le cs)
  · exact Nat.lt_succ_self _

/-- A text goes on with what stands behind an open dollar sign. A sign alone becomes an escape or a
placeholder, a name grows longer, and a brace is closed. -/
inductive GoesOn : List Char → List Char → Prop where
  | escape (rest : List Char) : GoesOn [] ('$' :: rest)
  | name {c : Char} (hc : isIdentStart c) (rest : List Char) : GoesOn [] (c :: rest)
  | braced {name : List Char} (hname : isIdentChars name) (rest : List Char) :
      GoesOn [] ('\x7b' :: (name ++ '\x7d' :: rest))
  | longer {name : List Char} (hname : isIdentChars name) {c : Char} (hc : isIdentPart c)
      (rest : List Char) : GoesOn name (c :: rest)
  | closed {name more : List Char} (hname : isIdentChars (name ++ more)) (rest : List Char) :
      GoesOn ('\x7b' :: name) (more ++ '\x7d' :: rest)

/-- No placeholder that the first text leaves open goes on in the second. -/
def Apart (p q : List Char) : Prop :=
  ∀ opened, openEnd? p = some opened → ¬GoesOn opened q

/-- No placeholder goes on across a seam of the texts. What a text leaves open may go on in all that
stands behind it. -/
def AllApart : List (List Char) → Prop
  | [] => True
  | p :: rest => Apart p rest.flatten ∧ AllApart rest

section AfterDollar

theorem afterDollar_brace_of_closed {cs rest : List Char} (hname : leadingIdent cs ≠ [])
    (hrest : afterIdent cs = '\x7d' :: rest) :
    Token.afterDollar ('\x7b' :: cs) = (.var (String.ofList (leadingIdent cs)), rest) := by
  obtain ⟨c, name, hcons⟩ := List.exists_cons_of_ne_nil hname
  rw [Token.afterDollar, hcons, hrest]
  rfl

theorem afterDollar_brace_of_not_closed {cs : List Char}
    (h : ∀ rest, leadingIdent cs ≠ [] → afterIdent cs ≠ '\x7d' :: rest) :
    Token.afterDollar ('\x7b' :: cs) = (.bare, '\x7b' :: cs) := by
  rw [Token.afterDollar]
  split
  · rename_i c name rest hname hrest
    exact absurd hrest (h rest (by simp [hname]))
  · rfl

theorem afterDollar_closed {name : List Char} (hname : isIdentChars name) (rest : List Char) :
    Token.afterDollar ('\x7b' :: (name ++ '\x7d' :: rest)) = (.var (String.ofList name), rest) := by
  have hstop : ('\x7d' :: rest).head?.any isIdentPart = false := by
    rw [List.head?_cons, Option.any_some]
    decide
  have hident := leadingIdent_append hname hstop
  have hne : leadingIdent (name ++ '\x7d' :: rest) ≠ [] := by
    rw [hident]
    exact ne_nil_of_isIdentChars hname
  rw [afterDollar_brace_of_closed hne (afterIdent_append hname hstop), hident]

theorem afterDollar_name {name after : List Char} (hname : isIdentChars name)
    (hafter : after.head?.any isIdentPart = false) :
    Token.afterDollar (name ++ after) = (.var (String.ofList name), after) := by
  have hident := leadingIdent_append hname hafter
  have hrest := afterIdent_append hname hafter
  cases name with
  | nil => simp [isIdentChars] at hname
  | cons c cs =>
    have hc : isIdentStart c := (Bool.and_eq_true_iff.mp hname).1
    rw [Token.afterDollar, hident, hrest]
    all_goals
      intro rest heq
      obtain rfl := (List.cons.inj heq).1
      exact absurd hc (by decide)

theorem afterDollar_bare {c : Char} (hdollar : c ≠ '$') (hbrace : c ≠ '\x7b')
    (hc : isIdentStart c = false) (cs : List Char) :
    Token.afterDollar (c :: cs) = (.bare, c :: cs) := by
  have hident : leadingIdent (c :: cs) = [] := by simp [leadingIdent, hc]
  rw [Token.afterDollar, hident]
  · intro rest heq
    exact hdollar (List.cons.inj heq).1
  · intro rest heq
    exact hbrace (List.cons.inj heq).1

end AfterDollar

def Settled (cs q : List Char) : Prop :=
  Token.afterDollar (cs ++ q) = ((Token.afterDollar cs).1, (Token.afterDollar cs).2 ++ q)

section Settled

variable {cs q : List Char}

theorem settled_brace_of_ends (h : afterIdent cs ≠ []) (q : List Char) :
    Settled ('\x7b' :: cs) q := by
  obtain ⟨hident, hafter⟩ := leadingIdent_append_of_ends h q
  obtain ⟨d, ds, hds⟩ := List.exists_cons_of_ne_nil h
  have hafter' : afterIdent (cs ++ q) = d :: (ds ++ q) := by rw [hafter, hds, List.cons_append]
  unfold Settled
  rw [List.cons_append]
  by_cases hclosed : leadingIdent cs ≠ [] ∧ d = '\x7d'
  · obtain ⟨hname, rfl⟩ := hclosed
    rw [afterDollar_brace_of_closed hname hds,
      afterDollar_brace_of_closed (hident.symm ▸ hname) hafter', hident]
  · have hown : Token.afterDollar ('\x7b' :: cs) = (.bare, '\x7b' :: cs) := by
      refine afterDollar_brace_of_not_closed fun rest hname heq => hclosed ⟨hname, ?_⟩
      exact (List.cons.inj (hds.symm.trans heq)).1
    have hjoined : Token.afterDollar ('\x7b' :: (cs ++ q)) = (.bare, '\x7b' :: (cs ++ q)) := by
      refine afterDollar_brace_of_not_closed fun rest hname heq => hclosed ⟨hident ▸ hname, ?_⟩
      exact (List.cons.inj (hafter'.symm.trans heq)).1
    rw [hown, hjoined, List.cons_append]

theorem settled_name_of_ends (hname : leadingIdent cs ≠ []) (h : afterIdent cs ≠ [])
    (q : List Char) : Settled cs q := by
  have hident := isIdentChars_leadingIdent hname
  have hstop := head?_afterIdent hname
  have hstop' : (afterIdent cs ++ q).head?.any isIdentPart = false := by
    rw [List.head?_append_of_ne_nil _ h]
    exact hstop
  have hown := afterDollar_name hident hstop
  have hjoined := afterDollar_name hident hstop'
  rw [← List.append_assoc, leadingIdent_append_afterIdent] at hjoined
  rw [leadingIdent_append_afterIdent] at hown
  unfold Settled
  rw [hjoined, hown]

theorem settled_of_not_isOpen (h : isOpen cs = false) (q : List Char) : Settled cs q := by
  cases cs with
  | nil => exact absurd h (by decide)
  | cons c cs =>
    by_cases hdollar : c = '$'
    · subst c
      rfl
    by_cases hbrace : c = '\x7b'
    · subst c
      exact settled_brace_of_ends (by simpa [isOpen] using h) q
    by_cases hc : isIdentStart c
    · refine settled_name_of_ends (by simp [leadingIdent, hc]) ?_ q
      rw [isOpen] at h
      · simpa using h
      · exact fun name heq => hbrace (List.cons.inj heq).1
    · have hbare := afterDollar_bare hdollar hbrace (by simpa using hc)
      unfold Settled
      rw [List.cons_append, hbare, hbare]
      rfl

theorem settled_nil (hq : ¬GoesOn [] q) : Settled [] q := by
  unfold Settled
  rw [List.nil_append]
  cases q with
  | nil => rfl
  | cons c rest =>
    have hdollar : c ≠ '$' := by
      rintro rfl
      exact hq (.escape rest)
    have hstart : isIdentStart c = false := by
      by_contra hc
      exact hq (.name (by simpa using hc) rest)
    by_cases hbrace : c = '\x7b'
    · subst c
      refine afterDollar_brace_of_not_closed fun after hname hafter => ?_
      have hsplit := leadingIdent_append_afterIdent rest
      rw [hafter] at hsplit
      refine hq ?_
      rw [← hsplit]
      exact .braced (isIdentChars_leadingIdent hname) after
    · exact afterDollar_bare hdollar hbrace hstart rest

theorem isOpen_cases (h : isOpen cs) :
    cs = [] ∨ (∃ name, cs = '\x7b' :: name ∧ afterIdent name = []) ∨ isIdentChars cs := by
  by_cases hnil : cs = []
  · exact .inl hnil
  by_cases hbrace : ∃ name, cs = '\x7b' :: name
  · obtain ⟨name, rfl⟩ := hbrace
    exact .inr (.inl ⟨name, rfl, by simpa [isOpen] using h⟩)
  · rw [isOpen] at h
    · exact .inr (.inr (isIdentChars_of_afterIdent (by simpa using h) hnil))
    · exact fun name heq => hbrace ⟨name, heq⟩

theorem afterDollar_openBrace {name : List Char} (h : afterIdent name = []) :
    Token.afterDollar ('\x7b' :: name) = (.bare, '\x7b' :: name) :=
  afterDollar_brace_of_not_closed fun rest _ => by simp [h]

theorem afterDollar_openName (hname : isIdentChars cs) :
    Token.afterDollar cs = (.var (String.ofList cs), []) := by
  have hown := @afterDollar_name cs [] hname rfl
  rwa [List.append_nil] at hown

theorem settled_openBrace {name : List Char} (h : afterIdent name = [])
    (hq : ¬GoesOn ('\x7b' :: name) q) : Settled ('\x7b' :: name) q := by
  unfold Settled
  rw [afterDollar_openBrace h, List.cons_append]
  refine afterDollar_brace_of_not_closed fun rest hne hafter => ?_
  have hident := isIdentChars_leadingIdent hne
  have hsplit := leadingIdent_append_afterIdent (name ++ q)
  rw [hafter] at hsplit
  -- The closing brace is no part of the open name, so it stands in the text behind.
  obtain ⟨more, hmore, hrest⟩ : ∃ more, leadingIdent (name ++ q) = name ++ more ∧
      q = more ++ '\x7d' :: rest := by
    rcases List.append_eq_append_iff.mp hsplit with ⟨more, hmore, hrest⟩ | ⟨more, hmore, hrest⟩
    · cases more with
      | nil =>
        rw [List.append_nil] at hmore
        exact ⟨[], by rw [List.append_nil, ← hmore], hrest.symm⟩
      | cons d more =>
        obtain rfl : '\x7d' = d := (List.cons.inj hrest).1
        have hmem : '\x7d' ∈ name := hmore ▸ List.mem_append_right _ List.mem_cons_self
        have hself := isIdentChars_of_afterIdent h (List.ne_nil_of_mem hmem)
        exact absurd hmem (notMem_of_isIdentChars (by decide) (by decide) hself)
    · exact ⟨more, hmore, hrest⟩
  refine hq ?_
  rw [hrest]
  exact .closed (hmore ▸ hident) rest

theorem settled_openName (hname : isIdentChars cs) (hq : ¬GoesOn cs q) : Settled cs q := by
  have hstop : q.head?.any isIdentPart = false := by
    cases q with
    | nil => rfl
    | cons c rest =>
      by_contra hc
      exact hq (.longer hname (by simpa using hc) rest)
  unfold Settled
  rw [afterDollar_name hname hstop, afterDollar_openName hname]
  rfl

theorem settled_of_not_goesOn (h : isOpen cs) (hq : ¬GoesOn cs q) : Settled cs q := by
  rcases isOpen_cases h with rfl | ⟨name, rfl, hends⟩ | hname
  · exact settled_nil hq
  · exact settled_openBrace hends hq
  · exact settled_openName hname hq

end Settled

theorem afterDollar_ne_of_goesOn {cs q : List Char} (h : GoesOn cs q) :
    (Token.afterDollar (cs ++ q)).1 ≠ (Token.afterDollar cs).1 := by
  cases h with
  | escape rest => exact Token.noConfusion
  | @name c hc rest =>
    have hne : leadingIdent (c :: rest) ≠ [] := by simp [leadingIdent, hc]
    have hvar := afterDollar_name (isIdentChars_leadingIdent hne) (head?_afterIdent hne)
    rw [leadingIdent_append_afterIdent] at hvar
    rw [List.nil_append, hvar]
    exact Token.noConfusion
  | @braced name hname rest =>
    rw [List.nil_append, afterDollar_closed hname rest]
    exact Token.noConfusion
  | @longer _ hname c hc rest =>
    have hne : leadingIdent (cs ++ c :: rest) ≠ [] := by
      cases cs with
      | nil => simp [isIdentChars] at hname
      | cons d ds => simp [leadingIdent, (Bool.and_eq_true_iff.mp hname).1]
    have hstop := head?_afterIdent hne
    have hvar := afterDollar_name (isIdentChars_leadingIdent hne) hstop
    have hsplit := leadingIdent_append_afterIdent (cs ++ c :: rest)
    rw [hsplit] at hvar
    rw [hvar, afterDollar_openName hname]
    intro heq
    -- The longest name would end in front of a character that goes on with it.
    have hlongest : leadingIdent (cs ++ c :: rest) = cs :=
      String.ofList_injective (Token.var.inj heq)
    rw [hlongest] at hsplit
    rw [List.append_cancel_left hsplit] at hstop
    exact absurd hc (by simpa using hstop)
  | @closed name more hname rest =>
    have hends := afterIdent_eq_nil_of_append hname
    rw [List.cons_append, ← List.append_assoc, afterDollar_closed hname rest,
      afterDollar_openBrace hends]
    exact Token.noConfusion

section Signs

def signs : List Char → List Token
  | [] => []
  | c :: cs =>
    if c = '$' then (Token.afterDollar cs).1 :: signs (Token.afterDollar cs).2 else signs cs
termination_by cs => cs.length
decreasing_by
  · exact Nat.lt_succ_of_le (Token.length_afterDollar_le cs)
  · exact Nat.lt_succ_self _

theorem signs_dollar (cs : List Char) :
    signs ('$' :: cs) = (Token.afterDollar cs).1 :: signs (Token.afterDollar cs).2 := by
  rw [signs, if_pos rfl]

theorem signs_cons {c : Char} (hc : c ≠ '$') (cs : List Char) : signs (c :: cs) = signs cs := by
  rw [signs, if_neg hc]

theorem namesIn_eq (cs : List Char) : namesIn cs = (signs cs).filterMap Token.name? := by
  fun_induction signs cs with
  | case1 => simp [namesIn, Token.scanChars]
  | case2 cs ih =>
    unfold namesIn at ih ⊢
    rw [Token.scanChars, if_pos rfl, List.filterMap_cons, List.filterMap_cons, ih]
  | case3 c cs hc ih => rw [namesIn_cons hc, ih]

theorem signs_dollar_append {cs q : List Char} (h : Settled cs q)
    (hrest : signs ((Token.afterDollar cs).2 ++ q) = signs (Token.afterDollar cs).2 ++ signs q) :
    signs ('$' :: cs ++ q) = signs ('$' :: cs) ++ signs q := by
  rw [List.cons_append, signs_dollar, signs_dollar, h, hrest, List.cons_append]

theorem signs_append_of_dollar_notMem {p : List Char} (h : '$' ∉ p) (q : List Char) :
    signs (p ++ q) = signs p ++ signs q := by
  induction p with
  | nil => rw [signs, List.nil_append, List.nil_append]
  | cons c cs ih =>
    obtain ⟨hc, hcs⟩ := List.ne_and_not_mem_of_not_mem_cons h
    rw [List.cons_append, signs_cons (Ne.symm hc), signs_cons (Ne.symm hc), ih hcs]

theorem dollar_notMem_of_isOpen {cs : List Char} (h : isOpen cs) :
    '$' ∉ (Token.afterDollar cs).2 := by
  rcases isOpen_cases h with rfl | ⟨name, rfl, hends⟩ | hname
  · decide
  · rw [afterDollar_openBrace hends]
    intro hmem
    rcases List.mem_cons.mp hmem with heq | hmem
    · exact absurd heq (by decide)
    · have hname := isIdentChars_of_afterIdent hends (List.ne_nil_of_mem hmem)
      exact notMem_of_isIdentChars (by decide) (by decide) hname hmem
  · rw [afterDollar_openName hname]
    exact List.not_mem_nil

theorem signs_append_of_apart {p q : List Char} (h : Apart p q) :
    signs (p ++ q) = signs p ++ signs q := by
  unfold Apart at h
  fun_induction openEnd? p with
  | case1 => rw [signs, List.nil_append, List.nil_append]
  | case2 cs hopen =>
    exact signs_dollar_append (settled_of_not_goesOn hopen (h cs rfl))
      (signs_append_of_dollar_notMem (dollar_notMem_of_isOpen hopen) q)
  | case3 cs hopen ih =>
    exact signs_dollar_append (settled_of_not_isOpen (by simpa using hopen) q) (ih h)
  | case4 c cs hc ih => rw [List.cons_append, signs_cons hc, signs_cons hc, ih h]

theorem apart_of_signs_prefix {p q : List Char} (h : signs p <+: signs (p ++ q)) : Apart p q := by
  unfold Apart
  fun_induction openEnd? p with
  | case1 => exact fun opened hopened => absurd hopened (Option.some_ne_none opened).symm
  | case2 cs hopen =>
    rintro opened ⟨⟩ hgoes
    rw [List.cons_append, signs_dollar, signs_dollar, List.cons_prefix_cons] at h
    exact afterDollar_ne_of_goesOn hgoes h.1.symm
  | case3 cs hopen ih =>
    have hsettled := settled_of_not_isOpen (by simpa using hopen) q
    rw [List.cons_append, signs_dollar, signs_dollar, hsettled, List.cons_prefix_cons] at h
    exact ih h.2
  | case4 c cs hc ih =>
    rw [List.cons_append, signs_cons hc, signs_cons hc] at h
    exact ih h

/-- Texts are all apart exactly if every dollar sign of their join starts the token that it starts in
its own text. -/
theorem allApart_iff {parts : List (List Char)} :
    AllApart parts ↔ signs parts.flatten = parts.flatMap signs := by
  induction parts with
  | nil => simp [signs, AllApart]
  | cons p rest ih =>
    rw [List.flatten_cons, List.flatMap_cons, AllApart, ih]
    constructor
    · rintro ⟨hp, hrest⟩
      rw [signs_append_of_apart hp, hrest]
    · intro heq
      have hp : Apart p rest.flatten := apart_of_signs_prefix (heq ▸ List.prefix_append _ _)
      rw [signs_append_of_apart hp] at heq
      exact ⟨hp, List.append_cancel_left heq⟩

theorem namesIn_flatten {parts : List (List Char)} (h : AllApart parts) :
    namesIn parts.flatten = parts.flatMap namesIn := by
  rw [namesIn_eq, allApart_iff.mp h, List.filterMap_flatMap]
  simp only [← namesIn_eq]

end Signs

end Template

end FlowScript
