import FlowScript.Proofs.Text.Trim
import FlowScript.Script.Literal

/-!
The tokens of object literals, as a runtime reads them. The lexer takes one character after the
other; its mode says what the character before has left open.
-/

namespace FlowScript.Reader

inductive Quote where
  | single
  | back
  deriving DecidableEq, Repr

def Quote.char : Quote → Char
  | .single => '\''
  | .back => backquote

inductive Token where
  | opening
  | closing
  | colon
  | comma
  | word (name : String)
  | literal (quote : Quote) (t : Template)
  deriving DecidableEq, Repr

inductive Mode where
  | between
  | word (read : List Char)
  | inside (quote : Quote) (t : Template)
  | escape (quote : Quote) (t : Template)
  | dollar (t : Template)
  | interpolation (t : Template) (code : List Char)
  deriving DecidableEq, Repr

def Mode.isLiteral : Mode → Bool
  | .between | .word _ => false
  | .inside .. | .escape .. | .dollar _ | .interpolation .. => true

structure Lexer where
  tokens : List Token
  mode : Mode
  deriving DecidableEq, Repr

def punctuation? : Char → Option Token
  | '\x7b' => some .opening
  | '\x7d' => some .closing
  | ':' => some .colon
  | ',' => some .comma
  | _ => none

def quote? (c : Char) : Option Quote :=
  if c = '\'' then some .single else if c = backquote then some .back else none

/-- The character that an escape stands for. A dollar sign is escaped between backquotes alone. -/
def unescaped? (quote : Quote) (c : Char) : Option Char :=
  if c = '\\' then some '\\'
  else if c = 'n' then some '\n'
  else if c = 'r' then some '\r'
  else if c = 't' then some '\t'
  else if c = '$' ∧ quote = .back then some '$'
  else if c = quote.char then some c
  else none

def isLineBreak (c : Char) : Bool :=
  c == '\n' || c == '\r'

def lookedUp? (bag : String) (code : List Char) : Option String :=
  match (bag.toList ++ ['.']).isPrefixOf? code with
  | some name => if Literal.isPlainKeyChars name then some (String.ofList name) else none
  | none => none

def stepBetween (tokens : List Token) (c : Char) : Option Lexer :=
  if Text.isBlank c then some ⟨tokens, .between⟩
  else
    match punctuation? c, quote? c with
    | some token, _ => some ⟨tokens ++ [token], .between⟩
    | none, some quote => some ⟨tokens, .inside quote .empty⟩
    | none, none => if Literal.isKeyStart c then some ⟨tokens, .word [c]⟩ else none

def stepInside (tokens : List Token) (quote : Quote) (t : Template) (c : Char) : Option Lexer :=
  if c = quote.char then some ⟨tokens ++ [.literal quote t], .between⟩
  else if c = '\\' then some ⟨tokens, .escape quote t⟩
  else if isLineBreak c then none
  else if c = '$' ∧ quote = .back then some ⟨tokens, .dollar t⟩
  else some ⟨tokens, .inside quote (t.pushText (String.singleton c))⟩

def step (bag : String) (lexer : Lexer) (c : Char) : Option Lexer :=
  match lexer.mode with
  | .between => stepBetween lexer.tokens c
  | .word read =>
    if Literal.isKeyPart c then some ⟨lexer.tokens, .word (read ++ [c])⟩
    else stepBetween (lexer.tokens ++ [.word (String.ofList read)]) c
  | .inside quote t => stepInside lexer.tokens quote t c
  | .escape quote t =>
    (unescaped? quote c).map fun d =>
      ⟨lexer.tokens, .inside quote (t.pushText (String.singleton d))⟩
  | .dollar t =>
    if c = '\x7b' then some ⟨lexer.tokens, .interpolation t []⟩
    else stepInside lexer.tokens .back (t.pushText "$") c
  | .interpolation t code =>
    if c = '\x7d' then
      (lookedUp? bag code).map fun name => ⟨lexer.tokens, .inside .back (t.pushVar name)⟩
    else if isLineBreak c then none
    else some ⟨lexer.tokens, .interpolation t (code ++ [c])⟩

def run (bag : String) (lexer : Lexer) (cs : List Char) : Option Lexer :=
  cs.foldlM (step bag) lexer

/-- The tokens of a text. The end of the text ends its last line, so that no literal stays open. -/
def lex (bag : String) (text : String) : Option (List Token) :=
  (run bag ⟨[], .between⟩ (text.toList ++ ['\n'])).map Lexer.tokens

section Characters

theorem ne_of_isBlank {c d : Char} (hc : Text.isBlank c) (hd : Text.isBlank d = false) : c ≠ d := by
  rintro rfl
  rw [hd] at hc
  contradiction

theorem isKeyPart_of_isBlank {c : Char} (hc : Text.isBlank c) : Literal.isKeyPart c = false := by
  have hident := Text.isIdentPart_of_isBlank hc
  have hdollar : c ≠ '$' := ne_of_isBlank hc (by decide)
  rw [Text.isIdentPart] at hident
  rw [Literal.isKeyPart, hident, Bool.false_or]
  exact beq_false_of_ne hdollar

theorem isKeyPart_of_isKeyStart {c : Char} (h : Literal.isKeyStart c) : Literal.isKeyPart c := by
  simp only [Literal.isKeyStart, Literal.isKeyPart, Char.isAlphanum, Bool.or_eq_true] at h ⊢
  exact h.imp_left fun h => h.imp_left .inl

theorem isKeyPart_of_isPlainKeyChars {cs : List Char} (h : Literal.isPlainKeyChars cs) :
    ∀ c ∈ cs, Literal.isKeyPart c := by
  cases cs with
  | nil => exact List.forall_mem_nil _
  | cons c cs =>
    obtain ⟨hstart, hparts⟩ := Bool.and_eq_true_iff.mp h
    exact List.forall_mem_cons.mpr ⟨isKeyPart_of_isKeyStart hstart, List.all_eq_true.mp hparts⟩

theorem ne_of_isKeyPart {c d : Char} (hc : Literal.isKeyPart c)
    (hd : Literal.isKeyPart d = false) : c ≠ d := by
  rintro rfl
  rw [hd] at hc
  contradiction

theorem punctuation?_of_isKeyPart {c : Char} (h : Literal.isKeyPart c) : punctuation? c = none := by
  fun_cases punctuation? c with
  | case1 => exact absurd h (by decide)
  | case2 => exact absurd h (by decide)
  | case3 => exact absurd h (by decide)
  | case4 => exact absurd h (by decide)
  | case5 => rfl

theorem quote?_of_isKeyPart {c : Char} (h : Literal.isKeyPart c) : quote? c = none := by
  have hsingle : c ≠ '\'' := ne_of_isKeyPart h (by decide)
  have hback : c ≠ backquote := ne_of_isKeyPart h (by decide)
  rw [quote?, if_neg hsingle, if_neg hback]

theorem stepBetween_of_isBlank (tokens : List Token) {c : Char} (hc : Text.isBlank c) :
    stepBetween tokens c = some ⟨tokens, .between⟩ := by
  rw [stepBetween, if_pos hc]

theorem stepBetween_of_isKeyStart (tokens : List Token) {c : Char} (h : Literal.isKeyStart c) :
    stepBetween tokens c = some ⟨tokens, .word [c]⟩ := by
  have hpart := isKeyPart_of_isKeyStart h
  have hblank : ¬Text.isBlank c := by
    intro hblank
    rw [isKeyPart_of_isBlank hblank] at hpart
    contradiction
  rw [stepBetween, if_neg hblank, punctuation?_of_isKeyPart hpart, quote?_of_isKeyPart hpart]
  exact if_pos h

end Characters

section Run

variable (bag : String)

theorem run_cons (lexer : Lexer) (c : Char) (cs : List Char) :
    run bag lexer (c :: cs) = (step bag lexer c).bind (run bag · cs) :=
  rfl

theorem run_append (lexer : Lexer) (cs ds : List Char) :
    run bag lexer (cs ++ ds) = (run bag lexer cs).bind (run bag · ds) :=
  List.foldlM_append

theorem run_append_of_some {lexer next : Lexer} {cs : List Char} (h : run bag lexer cs = some next)
    (ds : List Char) : run bag lexer (cs ++ ds) = run bag next ds := by
  rw [run_append, h, Option.bind_some]

theorem run_cons_of_some {lexer next : Lexer} {c : Char} (h : step bag lexer c = some next)
    (cs : List Char) : run bag lexer (c :: cs) = run bag next cs := by
  rw [run_cons, h, Option.bind_some]

theorem run_singleton (lexer : Lexer) (c : Char) : run bag lexer [c] = step bag lexer c := by
  rw [run_cons]
  exact Option.bind_fun_some _

theorem stepInside_of_isLineBreak (tokens : List Token) (quote : Quote) (t : Template) {c : Char}
    (hc : isLineBreak c) : stepInside tokens quote t c = none := by
  have hquote : c ≠ quote.char := by
    rintro rfl
    cases quote <;> contradiction
  have hslash : c ≠ '\\' := by
    rintro rfl
    contradiction
  rw [stepInside, if_neg hquote, if_neg hslash, if_pos hc]

theorem step_of_isLineBreak {lexer : Lexer} {c : Char} (hc : isLineBreak c)
    (hmode : lexer.mode.isLiteral) : step bag lexer c = none := by
  have hcases : c = '\n' ∨ c = '\r' := by simpa [isLineBreak] using hc
  obtain ⟨tokens, mode⟩ := lexer
  cases mode with
  | between => contradiction
  | word read => contradiction
  | inside quote t => exact stepInside_of_isLineBreak tokens quote t hc
  | escape quote t => rcases hcases with rfl | rfl <;> cases quote <;> rfl
  | dollar t => rcases hcases with rfl | rfl <;> rfl
  | interpolation t code => rcases hcases with rfl | rfl <;> rfl

end Run

/-- Every line break of the text stands outside its literals. -/
def BreaksOutsideLiterals (bag text : String) : Prop :=
  ∀ before c after, text.toList = before ++ c :: after → isLineBreak c →
    ∃ lexer, run bag ⟨[], .between⟩ before = some lexer ∧ ¬lexer.mode.isLiteral

theorem breaksOutsideLiterals_of_lex {bag text : String} {tokens : List Token}
    (h : lex bag text = some tokens) : BreaksOutsideLiterals bag text := by
  intro before c after htext hc
  rw [lex, htext, List.append_assoc, run_append] at h
  cases hbefore : run bag ⟨[], .between⟩ before with
  | none =>
    rw [hbefore] at h
    contradiction
  | some lexer =>
    refine ⟨lexer, rfl, fun hmode => ?_⟩
    rw [hbefore, Option.bind_some, List.cons_append, run_cons, step_of_isLineBreak bag hc hmode] at h
    contradiction

example : lex "variables" "'a\nb'" = none := by decide

end FlowScript.Reader
