import FlowScript.Layout.Normalize
import FlowScript.Proofs.Layout.Tokens
import FlowScript.Proofs.Reader.Literals
import FlowScript.Proofs.Reader.Parser
import FlowScript.Script.Render

/-!
Values in object notation are read back from their text, as it is rendered and as it is laid out.
-/

namespace FlowScript

/-- Objects and strings. The templates are in normal form, and their variables have names that can
stand alone. -/
inductive Expr.IsLiteral : Expr → Prop
  | str {t : Template} : t.IsNormal →
      (∀ name, .var name ∈ t.segments → Literal.isPlainKeyChars name.toList) →
      Expr.IsLiteral (.str t)
  | object {entries : List (String × Expr)} :
      (∀ entry ∈ entries, Expr.IsLiteral entry.2) → Expr.IsLiteral (.object entries)

namespace Reader

/-- The characters, which start and end between tokens, take the parser to another state. -/
def Reads (bag : String) (cs : List Char) (parser next : Parser) : Prop :=
  ∃ tokens, (∀ before, run bag ⟨before, .between⟩ cs = some ⟨before ++ tokens, .between⟩) ∧
    parser.run tokens = some next

section Reads

variable {bag : String}

theorem Reads.append {cs ds : List Char} {parser next last : Parser}
    (hcs : Reads bag cs parser next) (hds : Reads bag ds next last) :
    Reads bag (cs ++ ds) parser last := by
  obtain ⟨tokens, hlex, hparse⟩ := hcs
  obtain ⟨more, hlex', hparse'⟩ := hds
  refine ⟨tokens ++ more, ?_, ?_⟩
  · intro before
    rw [run_append_of_some bag (hlex before), hlex', List.append_assoc]
  · rw [Parser.run_append_of_some hparse, hparse']

theorem reads_nil (parser : Parser) : Reads bag [] parser parser :=
  ⟨[], fun before => by rw [List.append_nil]; rfl, rfl⟩

theorem reads_blank {c : Char} (hc : Text.isBlank c) (parser : Parser) :
    Reads bag [c] parser parser := by
  refine ⟨[], fun before => ?_, rfl⟩
  rw [run_singleton, List.append_nil]
  exact stepBetween_of_isBlank before hc

theorem reads_punctuation {c : Char} {token : Token} {parser next : Parser}
    (hblank : Text.isBlank c = false) (htoken : punctuation? c = some token)
    (hstep : parser.step token = some next) : Reads bag [c] parser next := by
  refine ⟨[token], ?_, ?_⟩
  · intro before
    rw [run_singleton]
    show stepBetween before c = _
    simp [stepBetween, hblank, htoken]
  · rw [Parser.run_cons_of_some hstep]
    rfl

theorem reads_key (s : String) (entries : List (String × Expr)) (outer : List OpenObject) :
    Reads bag ((Literal.key s).toList ++ [':']) (.key entries outer)
      (.value (⟨entries, s⟩ :: outer)) := by
  refine ⟨[keyToken s, .colon], fun before => run_key bag before s, ?_⟩
  have hkey : Parser.step (.key entries outer) (keyToken s) = some (.colon s entries outer) := by
    rw [keyToken]
    split
    · rfl
    · show some (Parser.colon (Template.literal s).plainText entries outer) = _
      rw [plainText_literal]
  rw [Parser.run_cons_of_some hkey]
  rfl

theorem reads_str {t : Template} (hbag : Literal.isPlainKeyChars bag.toList)
    (hnormal : t.IsNormal)
    (hnames : ∀ name, .var name ∈ t.segments → Literal.isPlainKeyChars name.toList)
    (outer : List OpenObject) :
    Reads bag (t.literalText bag).toList (.value outer) (Parser.deliver (.str t) outer) :=
  ⟨[.literal (literalQuote t) t], fun before => run_literalText bag before hbag hnormal hnames, rfl⟩

theorem reads_entries {entries : List (String × Expr)}
    (hvalues : ∀ entry ∈ entries, ∀ outer,
      Reads bag (entry.2.render bag).toList (.value outer) (Parser.deliver entry.2 outer))
    (before : List (String × Expr)) (outer : List OpenObject) :
    Reads bag (renderEntries bag entries).toList (.key before outer)
      (.key (before ++ entries) outer) := by
  induction entries generalizing before with
  | nil =>
    rw [List.append_nil]
    exact reads_nil _
  | cons entry rest ih =>
    obtain ⟨key, value⟩ := entry
    obtain ⟨hvalue, hrest⟩ := List.forall_mem_cons.mp hvalues
    have hentry : Reads bag
        (((Literal.key key).toList ++ [':']) ++ [' '] ++ (value.render bag).toList)
        (.key before outer) (.separator (before ++ [(key, value)]) outer) :=
      ((reads_key key before outer).append (reads_blank (by decide) _)).append (hvalue _)
    have hcomma : Reads bag ([','] ++ ['\n']) (.separator (before ++ [(key, value)]) outer)
        (.key (before ++ [(key, value)]) outer) :=
      (reads_punctuation (by decide) rfl rfl).append (reads_blank (by decide) _)
    have hall := (hentry.append hcomma).append (ih hrest (before ++ [(key, value)]))
    rw [List.append_assoc before, List.singleton_append] at hall
    rw [renderEntries]
    simpa using hall

theorem reads_render {e : Expr} (he : e.IsLiteral) (hbag : Literal.isPlainKeyChars bag.toList)
    (outer : List OpenObject) :
    Reads bag (e.render bag).toList (.value outer) (Parser.deliver e outer) := by
  induction he generalizing outer with
  | str hnormal hnames =>
    rw [Expr.render]
    exact reads_str hbag hnormal hnames outer
  | @object entries hentries ih =>
    have hopen : Reads bag ['\x7b'] (.value outer) (.key [] outer) :=
      reads_punctuation (by decide) rfl rfl
    have hclose : Reads bag ['\x7d'] (.key entries outer) (Parser.deliver (.object entries) outer) :=
      reads_punctuation (by decide) rfl rfl
    -- An object without entries stands on one line.
    cases entries with
    | nil =>
      rw [Expr.render]
      exact hopen.append hclose
    | cons entry rest =>
      have hfeed : Reads bag ['\n'] (.key [] outer) (.key [] outer) := reads_blank (by decide) _
      have hall := (hopen.append hfeed).append ((reads_entries ih [] outer).append hclose)
      rw [Expr.render]
      · simpa using hall
      · exact List.cons_ne_nil _ _

theorem read_of_reads {text : String} {e : Expr}
    (h : Reads bag text.toList (.value []) (Parser.deliver e [])) : read bag text = some e := by
  obtain ⟨tokens, hlex, hparse⟩ := h
  have htokens : lex bag text = some tokens := by
    rw [lex, run_append_of_some bag (hlex []), run_singleton]
    rfl
  rw [read, htokens, Option.bind_some, parse, hparse]
  rfl

theorem breaksOutsideLiterals_of_read {text : String} {e : Expr} (h : read bag text = some e) :
    BreaksOutsideLiterals bag text := by
  obtain ⟨tokens, hlex, _⟩ := Option.bind_eq_some_iff.mp h
  exact breaksOutsideLiterals_of_lex hlex

theorem read_normalize (text : String) (width : Nat) :
    read bag (Layout.normalize text width) = read bag text :=
  read_eq_of_lex_eq (Layout.lex_normalize bag text width)

/-- A value is read back from its text and from the layout of its text. No text in it ends its
literal, opens an interpolation or breaks a line inside a literal. -/
theorem literal_reads_back {e : Expr} (hbag : Literal.isPlainKeyChars bag.toList)
    (he : e.IsLiteral) (width : Nat) :
    (read bag (e.render bag) = some e ∧ BreaksOutsideLiterals bag (e.render bag)) ∧
      read bag (Layout.normalize (e.render bag) width) = some e ∧
      BreaksOutsideLiterals bag (Layout.normalize (e.render bag) width) := by
  have hrender : read bag (e.render bag) = some e := read_of_reads (reads_render he hbag [])
  have hlayout : read bag (Layout.normalize (e.render bag) width) = some e := by
    rw [read_normalize, hrender]
  exact ⟨⟨hrender, breaksOutsideLiterals_of_read hrender⟩, hlayout,
    breaksOutsideLiterals_of_read hlayout⟩

def awkwardValue : Expr :=
  .object [("it's", .str ⟨[.text "a'b\\`$\x7bx\x7d\r\n\t "]⟩),
    ("plain$", .object [
      ("", .str ⟨[.var "token", .text "`$\x7btoken\x7d\\ \n", .var "_id1"]⟩),
      ("empty", .object [])]),
    ("tail", .str ⟨[.text "\u2028 '"]⟩)]

theorem awkwardValue_reads_back :
    Literal.isPlainKeyChars "variables".toList ∧ awkwardValue.IsLiteral ∧
      (read "variables" (awkwardValue.render "variables") = some awkwardValue ∧
        BreaksOutsideLiterals "variables" (awkwardValue.render "variables")) ∧
      read "variables" (Layout.normalize (awkwardValue.render "variables") 2) =
        some awkwardValue ∧
      BreaksOutsideLiterals "variables"
        (Layout.normalize (awkwardValue.render "variables") 2) := by
  have hbag : Literal.isPlainKeyChars "variables".toList := by decide
  have hvalue : awkwardValue.IsLiteral := by
    refine .object (List.forall_mem_cons.mpr ⟨?_, List.forall_mem_cons.mpr ⟨?_,
      List.forall_mem_cons.mpr ⟨?_, List.forall_mem_nil _⟩⟩⟩)
    · exact .str ⟨by simp, by simp⟩ (by simp)
    · refine .object (List.forall_mem_cons.mpr ⟨?_, List.forall_mem_cons.mpr ⟨?_,
        List.forall_mem_nil _⟩⟩)
      · exact .str ⟨by simp, by simp [Segment.isText]⟩ (by simp; decide)
      · exact .object (List.forall_mem_nil _)
    · exact .str ⟨by simp, by simp⟩ (by simp)
  exact ⟨hbag, hvalue, literal_reads_back hbag hvalue 2⟩

end Reads

end Reader

end FlowScript
