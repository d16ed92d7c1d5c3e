import FlowScript.Script.Render
import FlowScript.Script.Walk
import Mathlib.Data.List.Basic

/-! The text of statements as literal chunks with look-ups in the bag between them. The bag enters a
text by its look-ups alone, and these are the variables that the walk over the statements meets. -/

namespace FlowScript

def usedNames (events : List VarEvent) : List String :=
  events.filterMap fun
    | .used name => some name
    | .assigned _ => none

def assignedNames (events : List VarEvent) : List String :=
  events.filterMap fun
    | .used _ => none
    | .assigned name => some name

theorem usedNames_append (xs ys : List VarEvent) :
    usedNames (xs ++ ys) = usedNames xs ++ usedNames ys :=
  List.filterMap_append

theorem assignedNames_append (xs ys : List VarEvent) :
    assignedNames (xs ++ ys) = assignedNames xs ++ assignedNames ys :=
  List.filterMap_append

@[simp] theorem assignedNames_map_used (names : List String) :
    assignedNames (names.map .used) = [] := by
  simp [assignedNames]

inductive Fragment where
  /-- Text that is the same for every bag. -/
  | chunk (s : String)
  | read (name : String)
  /-- The look-up of a slot that is assigned, with the sign of the assignment. -/
  | target (name : String)

namespace Fragment

def text (bag : String) : Fragment → String
  | .chunk s => s
  | .read name => Template.lookup bag name
  | .target name => Template.lookup bag name ++ " = "

def write (bag : String) (fragments : List Fragment) : String :=
  String.join (fragments.map (text bag))

def reads (fragments : List Fragment) : List String :=
  fragments.filterMap fun
    | .read name => some name
    | _ => none

def targets (fragments : List Fragment) : List String :=
  fragments.filterMap fun
    | .target name => some name
    | _ => none

theorem write_append (bag : String) (xs ys : List Fragment) :
    write bag (xs ++ ys) = write bag xs ++ write bag ys := by
  simp [write]

theorem write_cons (bag : String) (fragment : Fragment) (rest : List Fragment) :
    write bag (fragment :: rest) = fragment.text bag ++ write bag rest := by
  simp [write]

theorem write_singleton (bag : String) (fragment : Fragment) :
    write bag [fragment] = fragment.text bag := by
  simp [write]

theorem reads_append (xs ys : List Fragment) : reads (xs ++ ys) = reads xs ++ reads ys :=
  List.filterMap_append

theorem targets_append (xs ys : List Fragment) : targets (xs ++ ys) = targets xs ++ targets ys :=
  List.filterMap_append

theorem write_congr {fragments : List Fragment} (hreads : reads fragments = [])
    (htargets : targets fragments = []) (bag bag' : String) :
    write bag fragments = write bag' fragments := by
  induction fragments with
  | nil => rfl
  | cons fragment rest ih =>
    cases fragment with
    | chunk s => rw [write_cons, write_cons, ih hreads htargets, text, text]
    | read name => exact absurd hreads (List.cons_ne_nil _ _)
    | target name => exact absurd htargets (List.cons_ne_nil _ _)

end Fragment

open Fragment

/-- For every bag the text consists of the same fragments. They read what the events read, in order,
and they assign what the events assign. -/
structure Interleaves (fragments : List Fragment) (text : String → String)
    (events : List VarEvent) : Prop where
  text_eq : ∀ bag, text bag = write bag fragments
  reads_eq : reads fragments = usedNames events
  targets_perm : (targets fragments).Perm (assignedNames events)

def Interleaved (text : String → String) (events : List VarEvent) : Prop :=
  ∃ fragments, Interleaves fragments text events

theorem interleaved_chunk (s : String) : Interleaved (fun _ => s) [] :=
  ⟨[.chunk s], fun bag => (write_singleton bag (.chunk s)).symm, rfl, .refl _⟩

theorem interleaved_read (name : String) :
    Interleaved (fun bag => Template.lookup bag name) [.used name] :=
  ⟨[.read name], fun bag => (write_singleton bag (.read name)).symm, rfl, .refl _⟩

theorem interleaved_target (name : String) :
    Interleaved (fun bag => Template.lookup bag name ++ " = ") [.assigned name] :=
  ⟨[.target name], fun bag => (write_singleton bag (.target name)).symm, rfl, .refl _⟩

namespace Interleaved

variable {text text' : String → String} {events events' : List VarEvent}

theorem append (h : Interleaved text events) (h' : Interleaved text' events') :
    Interleaved (fun bag => text bag ++ text' bag) (events ++ events') := by
  obtain ⟨xs, hx⟩ := h
  obtain ⟨ys, hy⟩ := h'
  refine ⟨xs ++ ys, fun bag => ?_, ?_, ?_⟩
  · rw [write_append, ← hx.text_eq, ← hy.text_eq]
  · rw [reads_append, usedNames_append, hx.reads_eq, hy.reads_eq]
  · rw [targets_append, assignedNames_append]
    exact hx.targets_perm.append hy.targets_perm

theorem prepend (s : String) (h : Interleaved text events) :
    Interleaved (fun bag => s ++ text bag) events :=
  (interleaved_chunk s).append h

theorem followedBy (h : Interleaved text events) (s : String) :
    Interleaved (fun bag => text bag ++ s) events := by
  have happend := h.append (interleaved_chunk s)
  rwa [List.append_nil] at happend

/-- A target stands in front of the value that the walk visits before it. -/
theorem assign (slot : String) (h : Interleaved text events) :
    Interleaved (fun bag => Template.lookup bag slot ++ " = " ++ text bag)
      (events ++ [.assigned slot]) := by
  obtain ⟨fragments, htext, hreads, htargets⟩ := (interleaved_target slot).append h
  refine ⟨fragments, htext, ?_, htargets.trans ?_⟩
  · rw [hreads, usedNames_append, usedNames_append]
    exact (List.append_nil _).symm
  · rw [assignedNames_append, assignedNames_append]
    exact List.perm_append_comm

end Interleaved

namespace Template

theorem interleaved_segments (escape : String → String) (before after : String)
    (segments : List Segment) :
    Interleaved
      (fun bag => String.join (segments.map fun
        | .text s => escape s
        | .var name => before ++ lookup bag name ++ after))
      ((Template.mk segments).varNames.map .used) := by
  induction segments with
  | nil => exact interleaved_chunk ""
  | cons segment rest ih =>
    simp only [List.map_cons, String.join_cons]
    cases segment with
    | text s => exact ih.prepend (escape s)
    | var name => exact (((interleaved_read name).prepend before).followedBy after).append ih

theorem interleaved_codeText (t : Template) : Interleaved t.codeText t.varEvents := by
  have hsegments := interleaved_segments id "" "" t.segments
  simp only [String.empty_append, String.append_empty, id] at hsegments
  exact hsegments

theorem interleaved_literalText (t : Template) : Interleaved t.literalText t.varEvents := by
  have hsegments := interleaved_segments (Literal.escaped backquote) "$\x7b" "\x7d" t.segments
  unfold literalText
  by_cases hvars : t.hasVariables
  · simp only [if_pos hvars]
    exact (hsegments.prepend _).followedBy _
  · have hnone : t.varNames = [] := by simpa [hasVariables] using hvars
    simp only [if_neg hvars]
    rw [varEvents, hnone]
    exact interleaved_chunk _

end Template

mutual

theorem Expr.interleaved_render : (e : Expr) → Interleaved e.render e.varEvents
  | .str t => t.interleaved_literalText
  | .code t => t.interleaved_codeText
  | .ident name => interleaved_chunk name
  | .json value => interleaved_chunk value.pretty
  | .object [] => interleaved_chunk "\x7b\x7d"
  | .object (entry :: rest) =>
    ((interleaved_renderEntries (entry :: rest)).prepend "\x7b\n").followedBy "\x7d"
  | .call callee args => ((interleaved_renderArgs args).prepend (callee ++ "(")).followedBy ")"
  | .arrow params body => body.interleaved_render.prepend ("(" ++ paramsText params ++ ") => ")
  | .function params body =>
    ((interleaved_renderStmts body).prepend
      ("function (" ++ paramsText params ++ ") \x7b\n")).followedBy "\x7d"

theorem Stmt.interleaved_render : (stmt : Stmt) → Interleaved stmt.render stmt.varEvents
  | .raw line => interleaved_chunk (line ++ "\n")
  | .const name value =>
    (value.interleaved_render.prepend ("const " ++ name ++ " = ")).followedBy "\n"
  | .exportConst name value =>
    (value.interleaved_render.prepend ("export const " ++ name ++ " = ")).followedBy "\n"
  | .assign slot value => (value.interleaved_render.assign slot).followedBy "\n"
  | .expr value => value.interleaved_render.followedBy "\n"
  | .ret value => (value.interleaved_render.prepend "return ").followedBy "\n"
  | .function how params body =>
    ((interleaved_renderStmts body).prepend
      (how.text ++ "(" ++ paramsText params ++ ") \x7b\n")).followedBy "\x7d\n"

theorem interleaved_renderEntries : (entries : List (String × Expr)) →
    Interleaved (renderEntries · entries) (entriesVarEvents entries)
  | [] => interleaved_chunk ""
  | (key, value) :: rest =>
    ((value.interleaved_render.prepend (Literal.key key ++ ": ")).followedBy ",\n").append
      (interleaved_renderEntries rest)

theorem interleaved_renderArgs : (args : List Expr) →
    Interleaved (fun bag => ", ".intercalate (renderArgs bag args)) (exprsVarEvents args)
  | [] => interleaved_chunk ""
  | [arg] => by
    simpa [renderArgs, exprsVarEvents] using arg.interleaved_render
  | arg :: next :: rest => by
    simpa [renderArgs, exprsVarEvents, String.intercalate_cons_cons] using
      (arg.interleaved_render.followedBy ", ").append (interleaved_renderArgs (next :: rest))

theorem interleaved_renderStmts : (stmts : List Stmt) →
    Interleaved (renderStmts · stmts) (stmtsVarEvents stmts)
  | [] => interleaved_chunk ""
  | stmt :: rest => stmt.interleaved_render.append (interleaved_renderStmts rest)

end

/-- The text of statements is made of chunks that do not depend on the bag and of look-ups in it.
The look-ups are the variables that the walk meets: the reads in its order, and the targets of the
assignments. Without a variable the bag does not matter. -/
theorem renderStmts_interleaves (stmts : List Stmt) :
    ∃ fragments : List Fragment,
      (∀ bag, renderStmts bag stmts = write bag fragments) ∧
      reads fragments = usedNames (stmtsVarEvents stmts) ∧
      (targets fragments).Perm (assignedNames (stmtsVarEvents stmts)) ∧
      (stmtsVarEvents stmts = [] → ∀ bag bag', renderStmts bag stmts = renderStmts bag' stmts) := by
  obtain ⟨fragments, htext, hreads, htargets⟩ := interleaved_renderStmts stmts
  refine ⟨fragments, htext, hreads, htargets, fun hnone bag bag' => ?_⟩
  rw [hnone] at hreads htargets
  rw [htext, htext]
  exact write_congr hreads (List.perm_nil.mp htargets) bag bag'

end FlowScript
