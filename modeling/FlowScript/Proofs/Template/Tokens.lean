import FlowScript.Proofs.Template.Seams
import FlowScript.Proofs.Text.UpTo

/-! The tokens of a text as its only reading. Every token has a spelling, and where a spelling ends
is decided by what stands behind it, so a text is the spellings of its tokens and of no others. -/

namespace FlowScript.Template

open Text Endpoint

/-- How a token is written in front of what stands behind it. Text runs up to the next dollar sign, a
name without braces takes all that goes on with it, and a dollar sign is bare where it begins neither
an escape nor a placeholder. -/
inductive Token.Spelled : Token → List Char → List Char → Prop where
  | text {s : String} {behind : List Char} (hne : s ≠ "") (hplain : '$' ∉ s.toList)
      (hstop : ∀ c ∈ behind.head?, c = '$') : Spelled (.text s) s.toList behind
  | escape (behind : List Char) : Spelled (.text "$") ['$', '$'] behind
  | name {name : String} {behind : List Char} (hname : IsName name)
      (hstop : ∀ c ∈ behind.head?, ¬IsNamePart c) :
      Spelled (.var name) ('$' :: name.toList) behind
  | braced {name : String} (hname : IsName name) (behind : List Char) :
      Spelled (.var name) ('$' :: '\x7b' :: (name.toList ++ ['\x7d'])) behind
  | bare {behind : List Char} (hsign : ∀ c ∈ behind.head?, c ≠ '$' ∧ ¬IsLetter c)
      (hbrace : ∀ name rest, IsName name → behind ≠ '\x7b' :: (name.toList ++ '\x7d' :: rest)) :
      Spelled .bare ['$'] behind

inductive ReadAs : List Char → List Token → Prop where
  | nil : ReadAs [] []
  | cons {token : Token} {spelling behind : List Char} {tokens : List Token}
      (htoken : token.Spelled spelling behind) (hrest : ReadAs behind tokens) :
      ReadAs (spelling ++ behind) (token :: tokens)

section Complete

theorem afterDollar_of_bare {behind : List Char}
    (hsign : ∀ c ∈ behind.head?, c ≠ '$' ∧ ¬IsLetter c)
    (hbrace : ∀ name rest, IsName name → behind ≠ '\x7b' :: (name.toList ++ '\x7d' :: rest)) :
    Token.afterDollar behind = (.bare, behind) := by
  cases behind with
  | nil => rfl
  | cons c cs =>
    obtain ⟨hdollar, hletter⟩ := hsign c rfl
    by_cases hc : c = '\x7b'
    · subst hc
      refine afterDollar_brace_of_not_closed fun rest hname hafter => ?_
      have hsplit := leadingIdent_append_afterIdent cs
      rw [hafter] at hsplit
      refine hbrace (String.ofList (leadingIdent cs)) rest ?_ ?_
      · exact isName_ofList_iff.mpr (isIdentChars_leadingIdent hname)
      · rw [String.toList_ofList, hsplit]
    · have hstart : isIdentStart c = false := by simpa [← isIdentStart_iff] using hletter
      exact afterDollar_bare hdollar hc hstart cs

theorem scanChars_dollar (cs : List Char) :
    Token.scanChars ('$' :: cs) =
      (Token.afterDollar cs).1 :: Token.scanChars (Token.afterDollar cs).2 := by
  rw [Token.scanChars, if_pos rfl]

theorem scanChars_text {s : String} {behind : List Char} (hne : s ≠ "") (hplain : '$' ∉ s.toList)
    (hstop : ∀ c ∈ behind.head?, c = '$') :
    Token.scanChars (s.toList ++ behind) = .text s :: Token.scanChars behind := by
  obtain ⟨c, cs, hs⟩ := List.exists_cons_of_ne_nil (mt String.toList_eq_nil_iff.mp hne)
  rw [hs] at hplain ⊢
  obtain ⟨hc, hcs⟩ := List.ne_and_not_mem_of_not_mem_cons hplain
  rw [List.cons_append, Token.scanChars, if_neg (Ne.symm hc), takeWhile_ne_append hcs hstop,
    dropWhile_ne_append hcs hstop, ← hs, String.ofList_toList]

theorem scanChars_of_spelled {token : Token} {spelling behind : List Char}
    (h : token.Spelled spelling behind) :
    Token.scanChars (spelling ++ behind) = token :: Token.scanChars behind := by
  cases h with
  | text hne hplain hstop => exact scanChars_text hne hplain hstop
  | escape behind => exact scanChars_dollar ('$' :: behind)
  | @name name _ hname hstop =>
    rw [List.cons_append, scanChars_dollar,
      afterDollar_name (isIdentChars_toList hname) (head?_any_isIdentPart_iff.mpr hstop),
      String.ofList_toList]
  | @braced name hname behind =>
    have hclosed := afterDollar_closed (isIdentChars_toList hname) behind
    rw [String.ofList_toList] at hclosed
    simp only [List.cons_append, List.append_assoc, List.nil_append]
    rw [scanChars_dollar, hclosed]
  | bare hsign hbrace =>
    rw [List.singleton_append, scanChars_dollar, afterDollar_of_bare hsign hbrace]

theorem ReadAs.eq_scanChars {cs : List Char} {tokens : List Token} (h : ReadAs cs tokens) :
    tokens = Token.scanChars cs := by
  induction h with
  | nil => rw [Token.scanChars]
  | cons htoken _ ih => rw [scanChars_of_spelled htoken, ih]

end Complete

section Sound

theorem exists_spelled_afterDollar (cs : List Char) :
    ∃ spelling, '$' :: cs = spelling ++ (Token.afterDollar cs).2 ∧
      (Token.afterDollar cs).1.Spelled spelling (Token.afterDollar cs).2 := by
  fun_cases Token.afterDollar cs with
  | case1 cs => exact ⟨['$', '$'], rfl, .escape cs⟩
  | case2 cs c name rest hrest hname =>
    have hident : isIdentChars (leadingIdent cs) := isIdentChars_leadingIdent (by simp [hname])
    have hsplit := leadingIdent_append_afterIdent cs
    rw [hname] at hident hsplit
    rw [hrest] at hsplit
    have hspelled := Token.Spelled.braced (isName_ofList_iff.mpr hident) rest
    rw [String.toList_ofList] at hspelled
    exact ⟨_, by simp [← hsplit], hspelled⟩
  | case3 cs hopen =>
    refine ⟨['$'], rfl, .bare ?_ ?_⟩
    · rintro _ ⟨⟩
      exact ⟨by decide, by simp [← isIdentStart_iff, isIdentStart]⟩
    · intro name rest hname heq
      obtain rfl := (List.cons.inj heq).2
      have hchars := isIdentChars_toList hname
      obtain ⟨c, cs, hcs⟩ := List.exists_cons_of_ne_nil (ne_nil_of_isIdentChars hchars)
      have hstop : ('\x7d' :: rest).head?.any isIdentPart = false := rfl
      have hident := leadingIdent_append hchars hstop
      exact hopen c cs rest (hident.trans hcs) (afterIdent_append hchars hstop)
  | case4 cs hdollar hbrace hname =>
    refine ⟨['$'], rfl, .bare (fun c hc => ⟨?_, leadingIdent_eq_nil_iff.mp hname c hc⟩) ?_⟩
    · rintro rfl
      obtain ⟨rest, rfl⟩ := List.head?_eq_some_iff.mp hc
      exact hdollar rest rfl
    · intro name rest _ heq
      exact hbrace _ heq
  | case5 cs hdollar hbrace hname =>
    have hident : isIdentChars (leadingIdent cs) := isIdentChars_leadingIdent hname
    have hspelled := Token.Spelled.name (isName_ofList_iff.mpr hident)
      (head?_any_isIdentPart_iff.mp (head?_afterIdent hname))
    rw [String.toList_ofList] at hspelled
    exact ⟨_, by rw [List.cons_append, leadingIdent_append_afterIdent], hspelled⟩

theorem readAs_scanChars (cs : List Char) : ReadAs cs (Token.scanChars cs) := by
  fun_induction Token.scanChars cs with
  | case1 => exact .nil
  | case2 cs ih =>
    obtain ⟨spelling, hsplit, hspelled⟩ := exists_spelled_afterDollar cs
    rw [hsplit]
    exact .cons hspelled ih
  | case3 c cs hc ih =>
    have hplain : '$' ∉ c :: cs.takeWhile (· != '$') :=
      List.not_mem_cons_of_ne_of_not_mem (Ne.symm hc) (notMem_takeWhile_ne '$' cs)
    have hspelled := Token.Spelled.text (s := String.ofList (c :: cs.takeWhile (· != '$')))
      (by simp) (by rwa [String.toList_ofList]) (eq_of_head?_dropWhile_ne '$' cs)
    have hread := ReadAs.cons hspelled ih
    rwa [String.toList_ofList, List.cons_append, List.takeWhile_append_dropWhile] at hread

end Sound

/-- The tokens of a text spell it, one after the other, and no other tokens do. -/
theorem readAs_iff_eq_scan (s : String) (tokens : List Token) :
    ReadAs s.toList tokens ↔ tokens = scan s := by
  constructor
  · exact ReadAs.eq_scanChars
  · rintro rfl
    exact readAs_scanChars s.toList

end FlowScript.Template
