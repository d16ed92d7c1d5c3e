import FlowScript.Proofs.Json.Nesting
import FlowScript.Proofs.Reader.Literals
import FlowScript.Script.Render

/-! Texts of expressions and statements whose own pieces are neutral. Templates, keys and JSON
values may hold anything; the text around them stays nested. -/

namespace FlowScript

open Layout

/-- A piece of a line in which every bracket and every quote that is opened is closed. -/
structure Text.IsNeutral (s : String) : Prop where
  nested : Nested s.toList
  single_line : '\n' ∉ s.toList

mutual

/-- What an expression writes as it stands is neutral, and its variables have names that can stand
alone. -/
inductive Expr.IsNeutral (bag : String) : Expr → Prop
  | str {t : Template} :
      (∀ name, .var name ∈ t.segments → Literal.isPlainKeyChars name.toList) →
      Expr.IsNeutral bag (.str t)
  | code {t : Template} : Text.IsNeutral (t.codeText bag) → Expr.IsNeutral bag (.code t)
  | ident {name : String} : Text.IsNeutral name → Expr.IsNeutral bag (.ident name)
  | json {value : Json} : Expr.IsNeutral bag (.json value)
  | object {entries : List (String × Expr)} :
      (∀ entry ∈ entries, Expr.IsNeutral bag entry.2) → Expr.IsNeutral bag (.object entries)
  | call {callee : String} {args : List Expr} : Text.IsNeutral callee →
      (∀ arg ∈ args, Expr.IsNeutral bag arg) → Expr.IsNeutral bag (.call callee args)
  | arrow {params : List String} {body : Expr} : (∀ param ∈ params, Text.IsNeutral param) →
      Expr.IsNeutral bag body → Expr.IsNeutral bag (.arrow params body)
  | function {params : List String} {body : List Stmt} :
      (∀ param ∈ params, Text.IsNeutral param) →
      (∀ stmt ∈ body, Stmt.IsNeutral bag stmt) → Expr.IsNeutral bag (.function params body)

inductive Stmt.IsNeutral (bag : String) : Stmt → Prop
  | raw {line : String} : Text.IsNeutral line → Stmt.IsNeutral bag (.raw line)
  | const {name : String} {value : Expr} : Text.IsNeutral name →
      Expr.IsNeutral bag value → Stmt.IsNeutral bag (.const name value)
  | exportConst {name : String} {value : Expr} : Text.IsNeutral name →
      Expr.IsNeutral bag value → Stmt.IsNeutral bag (.exportConst name value)
  | assign {slot : String} {value : Expr} : Text.IsNeutral slot →
      Expr.IsNeutral bag value → Stmt.IsNeutral bag (.assign slot value)
  | expr {value : Expr} : Expr.IsNeutral bag value → Stmt.IsNeutral bag (.expr value)
  | ret {value : Expr} : Expr.IsNeutral bag value → Stmt.IsNeutral bag (.ret value)
  | function {how : Export} {params : List String} {body : List Stmt} :
      (∀ name, how = .named name → Text.IsNeutral name) →
      (∀ param ∈ params, Text.IsNeutral param) →
      (∀ stmt ∈ body, Stmt.IsNeutral bag stmt) → Stmt.IsNeutral bag (.function how params body)

end

section Literals

variable {bag : String}

theorem nested_of_isPlainKeyChars {cs : List Char} (h : Literal.isPlainKeyChars cs) :
    Nested cs := by
  refine nested_of_isPlain (List.all_eq_true.mpr fun c hc => ?_)
  exact isPlain_of_class (by decide) (Reader.isKeyPart_of_isPlainKeyChars h c hc)

theorem quoted_escapedChar (quote c : Char) : Quoted quote (Literal.escapedChar quote c) := by
  fun_cases Literal.escapedChar quote c with
  | case1 => exact .escape (by decide) .nil
  | case2 => exact .escape (by decide) .nil
  | case3 => exact .escape (by decide) .nil
  | case4 => exact .escape (by decide) .nil
  | case5 => exact .escape (by decide) .nil
  | case6 _ hfeed => exact .escape hfeed .nil
  | case7 hslash hfeed _ _ _ hc => exact .char hc hslash hfeed .nil

theorem quoted_escaped (quote : Char) (s : String) :
    Quoted quote (Literal.escaped quote s).toList := by
  rw [Literal.escaped, String.toList_ofList]
  exact Quoted.flatMap fun c _ => quoted_escapedChar quote c

theorem nested_singleQuoted (s : String) : Nested (Literal.singleQuoted s).toList := by
  have hquotes := nested_quotes (by decide) (quoted_escaped '\'' s)
  simpa [Literal.singleQuoted] using hquotes

theorem nested_key (s : String) : Nested (Literal.key s).toList := by
  rw [Literal.key]
  split
  · rename_i h
    exact nested_of_isPlainKeyChars h
  · exact nested_singleQuoted s

theorem quoted_interpolation (hbag : Literal.isPlainKeyChars bag.toList) {name : String}
    (hname : Literal.isPlainKeyChars name.toList) :
    Quoted backquote ("$\x7b" ++ Template.lookup bag name ++ "\x7d").toList := by
  have hpart : ∀ cs, Literal.isPlainKeyChars cs → Quoted backquote cs := by
    intro cs hcs
    refine Quoted.of_all (List.all_eq_true.mpr fun c hc => ?_)
    have hpart := Reader.isKeyPart_of_isPlainKeyChars hcs c hc
    have hquote : c ≠ backquote := Reader.ne_of_isKeyPart hpart (by decide)
    have hslash : c ≠ '\\' := Reader.ne_of_isKeyPart hpart (by decide)
    have hfeed : c ≠ '\n' := Reader.ne_of_isKeyPart hpart (by decide)
    simp [hquote, hslash, hfeed]
  have hopen : Quoted backquote ['$', '\x7b'] := Quoted.of_all (by decide)
  have hdot : Quoted backquote ['.'] := Quoted.of_all (by decide)
  have hclose : Quoted backquote ['\x7d'] := Quoted.of_all (by decide)
  have hall := hopen.append ((((hpart _ hbag).append hdot).append (hpart _ hname)).append hclose)
  simpa [Template.lookup] using hall

theorem nested_literalText (hbag : Literal.isPlainKeyChars bag.toList) {t : Template}
    (hnames : ∀ name, .var name ∈ t.segments → Literal.isPlainKeyChars name.toList) :
    Nested (t.literalText bag).toList := by
  by_cases h : t.hasVariables
  · rw [Reader.literalText_of_hasVariables bag h]
    refine nested_quotes (by decide) (Quoted.flatMap fun segment hsegment => ?_)
    cases segment with
    | text s => exact quoted_escaped backquote s
    | var name => exact quoted_interpolation hbag (hnames name hsegment)
  · rw [Template.literalText, if_neg h]
    exact nested_singleQuoted _

end Literals

section Lines

theorem Text.IsNeutral.append {s t : String} (hs : Text.IsNeutral s) (ht : Text.IsNeutral t) :
    Text.IsNeutral (s ++ t) := by
  refine ⟨?_, ?_⟩
  · rw [String.toList_append]
    exact hs.nested.append ht.nested
  · rw [String.toList_append, List.mem_append, not_or]
    exact ⟨hs.single_line, ht.single_line⟩

theorem isNeutral_paramsText {params : List String}
    (hparams : ∀ param ∈ params, Text.IsNeutral param) : Text.IsNeutral (paramsText params) := by
  have hcomma : Text.IsNeutral ", " := ⟨nested_of_isPlain (by decide), by decide⟩
  induction params with
  | nil => exact ⟨nested_of_isPlain (by decide), by decide⟩
  | cons param rest ih =>
    obtain ⟨hparam, hrest⟩ := List.forall_mem_cons.mp hparams
    cases rest with
    | nil => simpa [paramsText] using hparam
    | cons next rest =>
      have hall := (hparam.append hcomma).append (ih hrest)
      simpa [paramsText, String.intercalate_cons_cons] using hall

theorem isNeutral_header {name : String} (hname : Text.IsNeutral name) {params : List String}
    (hparams : ∀ param ∈ params, Text.IsNeutral param) :
    Text.IsNeutral (name ++ "(" ++ paramsText params ++ ") ") := by
  obtain ⟨hnested, hfeed⟩ := isNeutral_paramsText hparams
  have hbrackets : Nested ('(' :: ((paramsText params).toList ++ [')'])) :=
    nested_brackets rfl rfl hnested
  have hblank : Nested [' '] := nested_of_isPlain (by decide)
  have hall := (hname.nested.append hbrackets).append hblank
  exact ⟨by simpa using hall, by simp [hname.single_line, hfeed]⟩

theorem isNeutral_exportText {how : Export}
    (hname : ∀ name, how = .named name → Text.IsNeutral name) : Text.IsNeutral how.text := by
  cases how with
  | named name =>
    have hword : Text.IsNeutral "export function " := ⟨nested_of_isPlain (by decide), by decide⟩
    exact hword.append (hname name rfl)
  | default => exact ⟨nested_of_isPlain (by decide), by decide⟩

end Lines

section Render

variable {bag : String}

theorem isEnded_render (stmt : Stmt) : Text.IsEnded (stmt.render bag).toList := by
  have hended : ∀ s : String, Text.IsEnded (s ++ "\n").toList := by
    intro s
    rw [String.toList_append]
    exact Text.isEnded_lineFeed s.toList
  cases stmt with
  | function how params body =>
    have hlast := hended (how.text ++ "(" ++ paramsText params ++ ") \x7b\n" ++
      renderStmts bag body ++ "\x7d")
    rw [Stmt.render]
    simpa using hlast
  | _ =>
    rw [Stmt.render]
    exact hended _

theorem isEnded_renderStmts (stmts : List Stmt) : Text.IsEnded (renderStmts bag stmts).toList := by
  induction stmts with
  | nil => rfl
  | cons stmt rest ih =>
    rw [renderStmts, String.toList_append]
    exact (isEnded_render stmt).append ih

theorem nested_renderEntries {entries : List (String × Expr)}
    (h : ∀ entry ∈ entries, Nested (entry.2.render bag).toList) :
    Nested (renderEntries bag entries).toList := by
  induction entries with
  | nil => exact .nil
  | cons entry rest ih =>
    obtain ⟨key, value⟩ := entry
    obtain ⟨hvalue, hrest⟩ := List.forall_mem_cons.mp h
    have hcolon : Nested ": ".toList := nested_of_isPlain (by decide)
    have hcomma : Nested ",\n".toList := nested_of_isPlain (by decide)
    have hentry := (((nested_key key).append hcolon).append hvalue).append hcomma
    rw [renderEntries]
    simpa using hentry.append (ih hrest)

theorem nested_renderArgs {args : List Expr} (h : ∀ arg ∈ args, Nested (arg.render bag).toList) :
    Nested (", ".intercalate (renderArgs bag args)).toList := by
  have hargs : ∀ s ∈ renderArgs bag args, Nested s.toList := by
    induction args with
    | nil => exact List.forall_mem_nil _
    | cons arg rest ih =>
      obtain ⟨harg, hrest⟩ := List.forall_mem_cons.mp h
      exact List.forall_mem_cons.mpr ⟨harg, ih hrest⟩
  rw [String.toList_intercalate]
  exact nested_intercalate (nested_of_isPlain (by decide)) (List.forall_mem_map.mpr hargs)

theorem nested_renderStmts {stmts : List Stmt}
    (h : ∀ stmt ∈ stmts, Nested (stmt.render bag).toList) :
    Nested (renderStmts bag stmts).toList := by
  induction stmts with
  | nil => exact .nil
  | cons stmt rest ih =>
    obtain ⟨hstmt, hrest⟩ := List.forall_mem_cons.mp h
    rw [renderStmts, String.toList_append]
    exact hstmt.append (ih hrest)

theorem nested_braces {lines : String} (h : Nested lines.toList) :
    Nested ("\x7b\n" ++ lines ++ "\x7d").toList := by
  have hbraces : Nested ('\x7b' :: ((['\n'] ++ lines.toList) ++ ['\x7d'])) :=
    nested_brackets rfl rfl (nested_lineFeed.append h)
  simpa using hbraces

theorem nested_object {entries : List (String × Expr)}
    (h : ∀ entry ∈ entries, Nested (entry.2.render bag).toList) :
    Nested ((Expr.object entries).render bag).toList := by
  -- An object without entries stands on one line.
  cases entries with
  | nil =>
    rw [Expr.render]
    show Nested ('\x7b' :: ([] ++ ['\x7d']))
    exact nested_brackets rfl rfl .nil
  | cons entry rest =>
    rw [Expr.render]
    · exact nested_braces (nested_renderEntries h)
    · exact List.cons_ne_nil _ _

theorem nested_call {callee : String} (hcallee : Text.IsNeutral callee) {args : List Expr}
    (h : ∀ arg ∈ args, Nested (arg.render bag).toList) :
    Nested ((Expr.call callee args).render bag).toList := by
  have hbrackets : Nested ('(' :: ((", ".intercalate (renderArgs bag args)).toList ++ [')'])) :=
    nested_brackets rfl rfl (nested_renderArgs h)
  rw [Expr.render]
  simpa using hcallee.nested.append hbrackets

theorem nested_arrow {params : List String} (hparams : ∀ param ∈ params, Text.IsNeutral param)
    {body : Expr} (h : Nested (body.render bag).toList) :
    Nested ((Expr.arrow params body).render bag).toList := by
  have hempty : Text.IsNeutral "" := ⟨nested_of_isPlain (by decide), by decide⟩
  have hhead := (isNeutral_header hempty hparams).nested
  have harrow : Nested "=> ".toList := nested_of_isPlain (by decide)
  rw [Expr.render]
  simpa using (hhead.append harrow).append h

theorem nested_function {params : List String} (hparams : ∀ param ∈ params, Text.IsNeutral param)
    {body : List Stmt} (h : ∀ stmt ∈ body, Nested (stmt.render bag).toList) :
    Nested ((Expr.function params body).render bag).toList := by
  have hword : Text.IsNeutral "function " := ⟨nested_of_isPlain (by decide), by decide⟩
  rw [Expr.render]
  simpa using (isNeutral_header hword hparams).nested.append (nested_braces (nested_renderStmts h))

theorem nested_line {words value : String} (hwords : Nested words.toList)
    (hvalue : Nested value.toList) : Nested (words ++ value ++ "\n").toList := by
  simpa using (hwords.append hvalue).append nested_lineFeed

theorem nested_words {keyword name : String} (hkeyword : keyword.toList.all isPlain)
    (hname : Nested name.toList) : Nested (keyword ++ name ++ " = ").toList := by
  have hequals : Nested " = ".toList := nested_of_isPlain (by decide)
  simpa using ((nested_of_isPlain hkeyword).append hname).append hequals

theorem nested_topFunction {how : Export}
    (hname : ∀ name, how = .named name → Text.IsNeutral name) {params : List String}
    (hparams : ∀ param ∈ params, Text.IsNeutral param) {body : List Stmt}
    (h : ∀ stmt ∈ body, Nested (stmt.render bag).toList) :
    Nested ((Stmt.function how params body).render bag).toList := by
  have hhead := (isNeutral_header (isNeutral_exportText hname) hparams).nested
  rw [Stmt.render]
  simpa using (hhead.append (nested_braces (nested_renderStmts h))).append nested_lineFeed

variable (hbag : Literal.isPlainKeyChars bag.toList)
include hbag

mutual

theorem Expr.IsNeutral.nested_render : {e : Expr} → e.IsNeutral bag →
    Nested (e.render bag).toList
  | .str _, .str hnames => nested_literalText hbag hnames
  | .code _, .code htext => htext.nested
  | .ident _, .ident hname => hname.nested
  | .json _, .json => Json.nested_pretty _
  | .object _, .object hentries => nested_object fun entry h => (hentries entry h).nested_render
  | .call _ _, .call hcallee hargs =>
    nested_call hcallee fun arg h => (hargs arg h).nested_render
  | .arrow _ _, .arrow hparams hbody => nested_arrow hparams hbody.nested_render
  | .function _ _, .function hparams hbody =>
    nested_function hparams fun stmt h => (hbody stmt h).nested_render

theorem Stmt.IsNeutral.nested_render : {stmt : Stmt} → stmt.IsNeutral bag →
    Nested (stmt.render bag).toList
  | .raw line, .raw hline => by
    have hraw : Nested ("" ++ line ++ "\n").toList := nested_line .nil hline.nested
    rw [String.empty_append] at hraw
    exact hraw
  | .const _ _, .const hname hvalue =>
    nested_line (nested_words (by decide) hname.nested) hvalue.nested_render
  | .exportConst _ _, .exportConst hname hvalue =>
    nested_line (nested_words (by decide) hname.nested) hvalue.nested_render
  | .assign slot _, .assign hslot hvalue => by
    have hdot : Nested ".".toList := nested_of_isPlain (by decide)
    have hlookup : Nested (Template.lookup bag slot).toList := by
      have hall := ((nested_of_isPlainKeyChars hbag).append hdot).append hslot.nested
      simpa [Template.lookup] using hall
    have hwords : Nested ("" ++ Template.lookup bag slot ++ " = ").toList :=
      nested_words (by decide) hlookup
    rw [String.empty_append] at hwords
    exact nested_line hwords hvalue.nested_render
  | .expr value, .expr hvalue => by
    have hline : Nested ("" ++ value.render bag ++ "\n").toList :=
      nested_line .nil hvalue.nested_render
    rw [String.empty_append] at hline
    exact hline
  | .ret _, .ret hvalue => nested_line (nested_of_isPlain (by decide)) hvalue.nested_render
  | .function _ _ _, .function hname hparams hbody =>
    nested_topFunction hname hparams fun stmt h => (hbody stmt h).nested_render

end

end Render

end FlowScript
