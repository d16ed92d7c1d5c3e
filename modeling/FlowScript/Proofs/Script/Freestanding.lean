import FlowScript.Proofs.Layout.Stack
import FlowScript.Proofs.Script.Neutral

/-! In the layout of a script no top-level statement is indented by what stands in front of it, and
a top-level function ends where it starts. -/

namespace FlowScript

open Layout
open Text (splitLines)

def Script.IsNeutral (bag : String) (script : Script) : Prop :=
  ∀ sect ∈ script.sections, ∀ stmt ∈ sect.body, stmt.IsNeutral bag

def renderSections (bag : String) (sections : List Section) : String :=
  String.join (sections.map fun sect => renderStmts bag sect.body ++ "\n")

/-- The text in front of a statement, with the sections before its own and the statements before it
in its section. -/
def textBefore (bag : String) (before : List Section) (done : List Stmt) : String :=
  renderSections bag before ++ renderStmts bag done

def textBehind (bag : String) (rest : List Stmt) (after : List Section) : String :=
  renderStmts bag rest ++ "\n" ++ renderSections bag after

section Sections

variable {bag : String}

theorem mem_sections_of_mem_inTextOrder {script : Script} {sect : Section}
    (h : sect ∈ script.inTextOrder) : sect ∈ script.sections := by
  obtain ⟨kind, _, hkind⟩ := List.mem_flatMap.mp h
  exact List.mem_of_mem_filter hkind

theorem renderStmts_append (stmts more : List Stmt) :
    renderStmts bag (stmts ++ more) = renderStmts bag stmts ++ renderStmts bag more := by
  induction stmts with
  | nil => simp [renderStmts]
  | cons stmt rest ih => rw [List.cons_append, renderStmts, renderStmts, ih, String.append_assoc]

theorem renderSections_append (sections more : List Section) :
    renderSections bag (sections ++ more) =
      renderSections bag sections ++ renderSections bag more := by
  simp [renderSections]

theorem renderSections_cons (sect : Section) (rest : List Section) :
    renderSections bag (sect :: rest) =
      renderStmts bag sect.body ++ "\n" ++ renderSections bag rest := by
  simp [renderSections]

theorem render_eq_textBefore_append {script : Script} {before after : List Section}
    {sect : Section} {done rest : List Stmt} {stmt : Stmt}
    (hsections : script.inTextOrder = before ++ sect :: after)
    (hbody : sect.body = done ++ stmt :: rest) :
    script.render bag =
      textBefore bag before done ++ stmt.render bag ++ textBehind bag rest after := by
  have hrender : script.render bag = renderSections bag script.inTextOrder := rfl
  rw [hrender, hsections, renderSections_append, renderSections_cons, hbody, renderStmts_append,
    renderStmts, textBefore, textBehind]
  simp only [String.append_assoc]

theorem isEnded_renderSections (sections : List Section) :
    Text.IsEnded (renderSections bag sections).toList := by
  induction sections with
  | nil => rfl
  | cons sect rest ih =>
    rw [renderSections_cons, String.toList_append, String.toList_append]
    exact (Text.isEnded_lineFeed _).append ih

theorem nested_renderSections (hbag : Literal.isPlainKeyChars bag.toList)
    {sections : List Section}
    (h : ∀ sect ∈ sections, ∀ stmt ∈ sect.body, stmt.IsNeutral bag) :
    Nested (renderSections bag sections).toList := by
  induction sections with
  | nil => exact .nil
  | cons sect rest ih =>
    obtain ⟨hsect, hrest⟩ := List.forall_mem_cons.mp h
    have hbody := nested_renderStmts fun stmt hstmt => (hsect stmt hstmt).nested_render hbag
    rw [renderSections_cons, String.toList_append, String.toList_append]
    exact (hbody.append nested_lineFeed).append (ih hrest)

end Sections

section Functions

variable {bag : String}

theorem toList_render_function (how : Export) (params : List String) (body : List Stmt) :
    ((Stmt.function how params body).render bag).toList =
      ((how.text ++ "(" ++ paramsText params ++ ") ").toList ++ ['\x7b']) ++
        '\n' :: ((renderStmts bag body).toList ++ ['\x7d', '\n']) := by
  rw [Stmt.render]
  simp

theorem getLast?_placed_function (width : Nat) {earlier : String}
    (hstack : (behind earlier).stack = []) {how : Export}
    (hname : ∀ name, how = .named name → Text.IsNeutral name) {params : List String}
    (hparams : ∀ param ∈ params, Text.IsNeutral param) {body : List Stmt}
    (hbody : Nested (renderStmts bag body).toList) :
    (placed width earlier ((Stmt.function how params body).render bag)).getLast? =
      some ['\x7d'] := by
  obtain ⟨hnested, hfeed⟩ := isNeutral_header (isNeutral_exportText hname) hparams
  have hline : '\n' ∉ (how.text ++ "(" ++ paramsText params ++ ") ").toList ++ ['\x7b'] := by
    simpa using hfeed
  have hended : Text.IsEnded (renderStmts bag body).toList := isEnded_renderStmts body
  have hsplit : splitLines ['\x7d', '\n'] = [['\x7d']] := rfl
  rw [placed, toList_render_function, Text.splitLines_lineFeed hline,
    Text.splitLines_append hended, hsplit, List.getLast?_map,
    Position.getLast?_entries_block hstack hnested hfeed
      (fun _ h => Text.lineFeed_notMem_of_mem_splitLines h) (hended.symm ▸ hbody)]
  simp [Entry.text]

end Functions

/-- The brackets of a script are closed behind each of its top-level statements, whatever its
strings, keys and JSON values hold. So each of them starts without an indent, and the last line of a
top-level function is a closing brace without an indent. -/
theorem Script.freestanding {bag : String} (hbag : Literal.isPlainKeyChars bag.toList)
    {script : Script} (hscript : script.IsNeutral bag) {before after : List Section}
    {sect : Section} {done rest : List Stmt} {stmt : Stmt}
    (hsections : script.inTextOrder = before ++ sect :: after)
    (hbody : sect.body = done ++ stmt :: rest) (width : Nat) :
    script.render bag =
        textBefore bag before done ++ stmt.render bag ++ textBehind bag rest after ∧
      Freestanding width (textBefore bag before done) (stmt.render bag)
        (textBehind bag rest after) ∧
      ∀ how params body, stmt = .function how params body →
        (placed width (textBefore bag before done) (stmt.render bag)).getLast? =
          some ['\x7d'] := by
  have hall : ∀ other ∈ before ++ sect :: after, ∀ stmt ∈ other.body, stmt.IsNeutral bag := by
    intro other hother
    exact hscript other (mem_sections_of_mem_inTextOrder (hsections ▸ hother))
  obtain ⟨hbefore, hsect⟩ := List.forall_mem_append.mp hall
  have hstmts : ∀ other ∈ done ++ stmt :: rest, other.IsNeutral bag := by
    rw [← hbody]
    exact hsect sect (List.mem_cons_self ..)
  obtain ⟨hdone, hown⟩ := List.forall_mem_append.mp hstmts
  have hstmt : stmt.IsNeutral bag := hown stmt (List.mem_cons_self ..)
  have hended : Text.IsEnded (textBefore bag before done).toList := by
    rw [textBefore, String.toList_append]
    exact (isEnded_renderSections before).append (isEnded_renderStmts done)
  have hnested : Nested (textBefore bag before done).toList := by
    rw [textBefore, String.toList_append]
    exact (nested_renderSections hbag hbefore).append
      (nested_renderStmts fun stmt h => (hdone stmt h).nested_render hbag)
  have hfree : Freestanding width (textBefore bag before done) (stmt.render bag)
      (textBehind bag rest after) :=
    freestanding_of_nested width hended hnested (isEnded_render stmt) (hstmt.nested_render hbag) _
  refine ⟨render_eq_textBefore_append hsections hbody, hfree, ?_⟩
  rintro how params body rfl
  cases hstmt with
  | function hname hparams hbody =>
    exact getLast?_placed_function width hfree.closed_before hname hparams
      (nested_renderStmts fun stmt h => (hbody stmt h).nested_render hbag)

def bracketedCallback : Expr :=
  .arrow ["r"] (.code ⟨[.text "r['('] + f(", .var "token", .text ")"]⟩)

def bracketedFunction : Stmt :=
  .function .default ["variables"] [
    .const "response" (.call "http.post" [
      .str ⟨[.text "/\x7b[(`'\"\\\n$\x7b", .var "token", .text "\x7d"]⟩,
      .object [("it's (", .json (.object [("]\"", .string "\x7d\n")])),
        ("plain", bracketedCallback)]]),
    .expr (.function [] [.ret (.str ⟨[.text "\x7d) `\r\n"]⟩)])]

def bracketedSections : List Section :=
  [⟨.imports, [.raw "import \x7b check \x7d from 'k6'"]⟩,
    ⟨.options, [.exportConst "options" (.json (.array [.string "'[\x7b(", .object []]))]⟩]

def bracketedStart : Stmt :=
  .expr (.str ⟨[.text "\x7b"]⟩)

def bracketedMain : Section :=
  ⟨.main, [bracketedStart, bracketedFunction]⟩

def bracketedScript : Script :=
  ⟨bracketedMain :: bracketedSections⟩

theorem isNeutral_bracketedCallback : bracketedCallback.IsNeutral "variables" := by
  have hcode : Nested ("r".toList ++ '[' :: (('\'' :: (['('] ++ ['\''])) ++ ']' ::
      (" + f".toList ++ '(' :: ("variables.token".toList ++ [')'])))) :=
    (nested_of_isPlain (by decide)).append (.bracket rfl rfl
      (nested_quotes (by decide) (Quoted.of_all (by decide)))
      ((nested_of_isPlain (by decide)).append
        (nested_brackets rfl rfl (nested_of_isPlain (by decide)))))
  have hparam : Text.IsNeutral "r" := ⟨nested_of_isPlain (by decide), by decide⟩
  refine .arrow (by simpa using hparam) (.code ⟨?_, by decide⟩)
  simpa [Template.codeText, Template.lookup] using hcode

theorem isNeutral_bracketedFunction : bracketedFunction.IsNeutral "variables" := by
  have hbag : Text.IsNeutral "variables" := ⟨nested_of_isPlain (by decide), by decide⟩
  have hresponse : Text.IsNeutral "response" := ⟨nested_of_isPlain (by decide), by decide⟩
  have hpost : Text.IsNeutral "http.post" := ⟨nested_of_isPlain (by decide), by decide⟩
  refine .function (by simp) (by simpa using hbag) (List.forall_mem_cons.mpr ⟨?_,
    List.forall_mem_cons.mpr ⟨?_, List.forall_mem_nil _⟩⟩)
  · refine .const hresponse (.call hpost (List.forall_mem_cons.mpr ⟨.str (by simp; decide),
      List.forall_mem_cons.mpr ⟨.object ?_, List.forall_mem_nil _⟩⟩))
    exact List.forall_mem_cons.mpr ⟨.json, List.forall_mem_cons.mpr ⟨isNeutral_bracketedCallback,
      List.forall_mem_nil _⟩⟩
  · refine .expr (.function (List.forall_mem_nil _) (List.forall_mem_cons.mpr ⟨.ret (.str ?_),
      List.forall_mem_nil _⟩))
    simp

theorem isNeutral_bracketedScript : bracketedScript.IsNeutral "variables" := by
  have himport : Nested ("import ".toList ++ '\x7b' :: (" check ".toList ++ '\x7d' ::
      (" from ".toList ++ '\'' :: ("k6".toList ++ ['\''])))) :=
    (nested_of_isPlain (by decide)).append (.bracket rfl rfl (nested_of_isPlain (by decide))
      ((nested_of_isPlain (by decide)).append
        (nested_quotes (by decide) (Quoted.of_all (by decide)))))
  have hraw : (Stmt.raw "import \x7b check \x7d from 'k6'").IsNeutral "variables" :=
    .raw ⟨by simpa using himport, by decide⟩
  have hoptions : Text.IsNeutral "options" := ⟨nested_of_isPlain (by decide), by decide⟩
  refine List.forall_mem_cons.mpr ⟨?_, List.forall_mem_cons.mpr ⟨?_,
    List.forall_mem_cons.mpr ⟨?_, List.forall_mem_nil _⟩⟩⟩
  · exact List.forall_mem_cons.mpr ⟨.expr (.str (by simp)),
      List.forall_mem_cons.mpr ⟨isNeutral_bracketedFunction, List.forall_mem_nil _⟩⟩
  · exact List.forall_mem_cons.mpr ⟨hraw, List.forall_mem_nil _⟩
  · exact List.forall_mem_cons.mpr ⟨.exportConst hoptions .json, List.forall_mem_nil _⟩

theorem bracketedScript_freestanding :
    Literal.isPlainKeyChars "variables".toList ∧ bracketedScript.IsNeutral "variables" ∧
      bracketedScript.inTextOrder = bracketedSections ++ bracketedMain :: [] ∧
      bracketedMain.body = [bracketedStart] ++ bracketedFunction :: [] ∧
      bracketedScript.render "variables" =
        textBefore "variables" bracketedSections [bracketedStart] ++
          bracketedFunction.render "variables" ++ textBehind "variables" [] [] ∧
      Freestanding 2 (textBefore "variables" bracketedSections [bracketedStart])
        (bracketedFunction.render "variables") (textBehind "variables" [] []) ∧
      (placed 2 (textBefore "variables" bracketedSections [bracketedStart])
        (bracketedFunction.render "variables")).getLast? = some ['\x7d'] := by
  have hbag : Literal.isPlainKeyChars "variables".toList := by decide
  have hsections : bracketedScript.inTextOrder = bracketedSections ++ bracketedMain :: [] := rfl
  have hbody : bracketedMain.body = [bracketedStart] ++ bracketedFunction :: [] := rfl
  obtain ⟨hrender, hfree, hlast⟩ :=
    Script.freestanding hbag isNeutral_bracketedScript hsections hbody 2
  exact ⟨hbag, isNeutral_bracketedScript, hsections, hbody, hrender, hfree, hlast _ _ _ rfl⟩

end FlowScript
