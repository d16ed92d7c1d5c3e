import FlowScript.Proofs.Json.Squeeze
import FlowScript.Proofs.Script.Freestanding

/-! JSON values in the layout of a script. The layout changes the blanks at the ends of lines only,
and every string of a value ends on the line on which it starts. -/

namespace FlowScript

open Json (Squeezes squeeze squeezed)
open Layout
open Text (trimChars unlines splitLines)

/-- The blanks in front of a line at a position: the gap, if it is kept, and the indent. -/
def Layout.Position.lead (width : Nat) (pos : Position) (line : List Char) : List Char :=
  (if pos.keepsGap line then ['\n'] else []) ++ List.replicate (pos.level line * width) ' '

theorem Layout.Position.isBlank_of_mem_lead (width : Nat) (pos : Position) (line : List Char) :
    ∀ c ∈ pos.lead width line, Text.isBlank c := by
  refine List.forall_mem_append.mpr ⟨?_, fun c hc => ?_⟩
  · split
    · exact List.forall_mem_singleton.mpr (by decide)
    · exact List.forall_mem_nil _
  · rw [List.eq_of_mem_replicate hc]
    decide

section Lines

variable (width : Nat) (pos : Position)

theorem squeezes_entries {lines : List (List Char)} {kept : List Char}
    (h : Squeezes (unlines lines) kept) :
    Squeezes (unlines ((pos.entries lines).map (Entry.text width))) kept := by
  induction lines generalizing pos kept with
  | nil => exact h
  | cons raw rest ih =>
    rw [Text.unlines_cons, List.append_assoc] at h
    obtain ⟨first, others, rfl, hraw, hrest⟩ := h.exists_line
    have htrimmed := hraw.trimChars
    rw [Position.entries_cons, List.map_append, Text.unlines_append]
    refine Squeezes.append ?_ (ih (pos.step raw).2 hrest)
    by_cases htrim : trimChars raw = []
    · rw [htrim] at htrimmed
      rw [Position.step_of_blank pos htrim]
      exact htrimmed
    · have hline := ((Json.squeezes_indent (pos.level (trimChars raw) * width)).append
        htrimmed).append Json.squeezes_lineFeed
      rw [List.nil_append, List.append_nil] at hline
      rw [Position.step_of_ne_nil pos htrim, Position.entries_place]
      split
      · have hgap := Json.squeezes_lineFeed.append hline
        simpa [unlines, Entry.text] using hgap
      · simpa [unlines, Entry.text] using hline

theorem squeezes_splitLines {cs kept : List Char} (h : Squeezes cs kept) :
    Squeezes (unlines (splitLines cs)) kept := by
  rcases Text.unlines_splitLines cs with hlines | hlines
  · rwa [hlines]
  · rw [hlines, ← List.append_nil kept]
    exact h.append Json.squeezes_lineFeed

/-- The first line of a value stands behind the text in front of it, and its other lines keep what
they hold. -/
theorem exists_entries_value {c d : Char} {cs ds kept : List Char} (hfeed : '\n' ∉ c :: cs)
    (hc : Text.isBlank c = false) (hd : Text.isBlank d = false) (h : Squeezes (d :: ds) kept) :
    ∃ line shown, Squeezes shown kept ∧
      unlines ((pos.entries (splitLines (c :: cs ++ d :: (ds ++ ['\n'])))).map (Entry.text width)) =
        pos.lead width line ++ (c :: cs) ++ shown ++ ['\n'] := by
  obtain ⟨es, rest, hsplit, hes⟩ :=
    List.eq_append_cons_of_mem (List.mem_append_right ds (List.mem_singleton_self '\n'))
  have hfirst : '\n' ∉ d :: es := by
    refine List.not_mem_cons_of_ne_of_not_mem ?_ hes
    rintro rfl
    exact absurd hd (by decide)
  have hlines : splitLines (c :: cs ++ d :: (ds ++ ['\n'])) =
      (c :: cs ++ d :: es) :: splitLines rest := by
    rw [hsplit, ← List.cons_append, ← List.append_assoc,
      Text.splitLines_lineFeed (List.not_mem_append hfeed hfirst)]
  have htrim : trimChars (c :: cs ++ d :: es) = c :: cs ++ trimChars (d :: es) :=
    Text.trimChars_append hc hd
  have hvalue := h.append Json.squeezes_lineFeed
  rw [List.cons_append, hsplit, ← List.cons_append, List.append_nil] at hvalue
  obtain ⟨first, others, rfl, hraw, htail⟩ := hvalue.exists_line
  let line := c :: cs ++ trimChars (d :: es)
  let tail := ((pos.place line).2.entries (splitLines rest)).map (Entry.text width)
  have hshown : ['\n'].intercalate (trimChars (d :: es) :: tail) ++ ['\n'] =
      trimChars (d :: es) ++ ['\n'] ++ unlines tail :=
    Text.intercalate_lineFeed (List.cons_ne_nil _ _)
  refine ⟨line, ['\n'].intercalate (trimChars (d :: es) :: tail), ?_, ?_⟩
  · have hfeed : ∀ c ∈ ['\n'], Text.isBlank c := List.forall_mem_singleton.mpr (by decide)
    refine Squeezes.of_append_blanks hfeed ?_
    rw [hshown, ← List.append_nil first]
    exact (hraw.trimChars.append Json.squeezes_lineFeed).append
      (squeezes_entries width _ (squeezes_splitLines htail))
  · have hline : trimChars (c :: cs ++ d :: es) ≠ [] := htrim ▸ List.cons_ne_nil _ _
    rw [hlines, Position.entries_cons, Position.step_of_ne_nil pos hline, htrim,
      Position.entries_place, List.append_assoc _ _ ['\n'], hshown, Position.lead]
    split <;> simp [unlines, Entry.text, line, tail]

end Lines

/-- The text that a text behind another one becomes in the layout. -/
def laidOut (width : Nat) (earlier own : String) : String :=
  String.ofList (unlines (placed width earlier own))

theorem laidOut_empty (width : Nat) (earlier : String) : laidOut width earlier "" = "" :=
  rfl

theorem normalize_eq_laidOut (width : Nat) {earlier own : String}
    (hended : Text.IsEnded earlier.toList) (hended' : Text.IsEnded own.toList)
    (hplaced : placed width earlier own ≠ []) (later : String) :
    normalize (earlier ++ own ++ later) width =
      laidOut width "" earlier ++ laidOut width earlier own ++
        laidOut width (earlier ++ own) later := by
  rw [normalize_append width hended hended', Text.intercalate_lineFeed (by simp [hplaced]),
    Text.unlines_append, Text.unlines_append, String.ofList_append, String.ofList_append]
  rfl

def exportedOptions (value : Json) : Stmt :=
  .exportConst "options" (.json value)

section Statement

variable (bag : String) (width : Nat) (value : Json)

theorem exists_laidOut_exportedOptions (earlier : String) :
    ∃ line shown, squeezed shown = value.compact ∧
      laidOut width earlier ((exportedOptions value).render bag) =
        String.ofList ((behind earlier).lead width line) ++ "export const options = " ++ shown ++
          "\n" := by
  obtain ⟨d, ds, hvalue, hd⟩ := value.exists_prettyAt_eq_cons 0
  have hsqueezes := value.squeezes_prettyAt 0
  rw [hvalue] at hsqueezes
  have hhead : "export const options = ".toList = 'e' :: "xport const options = ".toList := rfl
  have hfeed : '\n' ∉ 'e' :: "xport const options = ".toList := by decide
  obtain ⟨line, shown, hshown, hlaid⟩ :=
    exists_entries_value width (behind earlier) hfeed (by decide) hd hsqueezes
  have hrender : ((exportedOptions value).render bag).toList =
      'e' :: "xport const options = ".toList ++ d :: (ds ++ ['\n']) := by
    rw [exportedOptions, Stmt.render, Expr.render, Json.pretty, String.toList_append,
      String.toList_append, hvalue]
    simp
  refine ⟨line, String.ofList shown, ?_, ?_⟩
  · rw [squeezed, String.toList_ofList, hshown.squeeze_eq, String.ofList_toList]
  · rw [laidOut, placed, hrender, hlaid, ← hhead]
    simp only [String.ofList_append, String.ofList_toList]

theorem placed_exportedOptions_ne_nil (earlier : String) :
    placed width earlier ((exportedOptions value).render bag) ≠ [] := by
  intro hnil
  obtain ⟨line, shown, _, hlaid⟩ := exists_laidOut_exportedOptions bag width value earlier
  rw [laidOut, hnil] at hlaid
  have hlength := congrArg String.length hlaid
  have hfeed : "\n".length = 1 := rfl
  simp only [String.length_append] at hlength
  simp [unlines] at hlength
  omega

/-- Without its blanks the exported value is its compact text, in the layout of the statement alone
and in the layout of a script. There blanks may stand in front of the statement. -/
theorem exportedOptions_survive_layout :
    (∃ shown, squeezed shown = value.compact ∧
      normalize ((exportedOptions value).render bag) width =
        "export const options = " ++ shown ++ "\n") ∧
    ∀ (script : Script) (before after : List Section) (sect : Section) (done rest : List Stmt),
      script.inTextOrder = before ++ sect :: after →
      sect.body = done ++ exportedOptions value :: rest →
      ∃ lead shown, (∀ c ∈ lead.toList, Text.isBlank c) ∧ squeezed shown = value.compact ∧
        normalize (script.render bag) width =
          laidOut width "" (textBefore bag before done) ++
            (lead ++ "export const options = " ++ shown ++ "\n") ++
            laidOut width (textBefore bag before done ++ (exportedOptions value).render bag)
              (textBehind bag rest after) := by
  have hown : Text.IsEnded ((exportedOptions value).render bag).toList := isEnded_render _
  constructor
  · obtain ⟨line, shown, hshown, hlaid⟩ := exists_laidOut_exportedOptions bag width value ""
    have hempty : Text.IsEnded "".toList := rfl
    have halone := normalize_eq_laidOut width hempty hown
      (placed_exportedOptions_ne_nil bag width value "") ""
    have hstack : (behind "").stack = [] := rfl
    have hlead : (behind "").lead width line = [] := by
      rw [Position.lead, Position.level_of_stack_eq_nil hstack, Nat.zero_mul]
      rfl
    rw [laidOut_empty, laidOut_empty, hlaid, hlead] at halone
    exact ⟨shown, hshown, by simpa using halone⟩
  · intro script before after sect done rest hsections hbody
    have hended : Text.IsEnded (textBefore bag before done).toList := by
      rw [textBefore, String.toList_append]
      exact (isEnded_renderSections before).append (isEnded_renderStmts done)
    obtain ⟨line, shown, hshown, hlaid⟩ :=
      exists_laidOut_exportedOptions bag width value (textBefore bag before done)
    refine ⟨String.ofList ((behind (textBefore bag before done)).lead width line), shown, ?_,
      hshown, ?_⟩
    · rw [String.toList_ofList]
      exact Position.isBlank_of_mem_lead width _ line
    · rw [render_eq_textBefore_append hsections hbody, normalize_eq_laidOut width hended hown
        (placed_exportedOptions_ne_nil bag width value _), hlaid]

def tangledValue : Json :=
  .object [("${name} \x7b(\"", .array [.string "$name\r\n  ]\\\" '", .number (.natural 3)]),
    ("\x7d [\n", .object []), ("none", .null)]

def tangledImports : Section :=
  ⟨.imports, [.raw "import http from 'k6/http'"]⟩

def tangledOptions : Section :=
  ⟨.options, [.raw "// \x7b", exportedOptions tangledValue]⟩

def tangledMain : Section :=
  ⟨.main, [.function .default [] []]⟩

def tangledScript : Script :=
  ⟨[tangledMain, tangledOptions, tangledImports]⟩

theorem tangledValue_survives_layout :
    tangledScript.inTextOrder = [tangledImports] ++ tangledOptions :: [tangledMain] ∧
      tangledOptions.body = [.raw "// \x7b"] ++ exportedOptions tangledValue :: [] ∧
      ∃ lead shown, (∀ c ∈ lead.toList, Text.isBlank c) ∧
        squeezed shown = tangledValue.compact ∧
        normalize (tangledScript.render "variables") 4 =
          laidOut 4 "" (textBefore "variables" [tangledImports] [.raw "// \x7b"]) ++
            (lead ++ "export const options = " ++ shown ++ "\n") ++
            laidOut 4 (textBefore "variables" [tangledImports] [.raw "// \x7b"] ++
              (exportedOptions tangledValue).render "variables")
              (textBehind "variables" [] [tangledMain]) := by
  have hsections :
      tangledScript.inTextOrder = [tangledImports] ++ tangledOptions :: [tangledMain] := rfl
  have hbody : tangledOptions.body = [.raw "// \x7b"] ++ exportedOptions tangledValue :: [] := rfl
  exact ⟨hsections, hbody, (exportedOptions_survive_layout "variables" 4 tangledValue).2
    tangledScript _ _ _ _ _ hsections hbody⟩

end Statement

end FlowScript
