import FlowScript.CommandLine
import FlowScript.Proofs.Compile.Strictness
import FlowScript.Proofs.Files.MakeDirs
import FlowScript.Proofs.Layout.Ends

/-! What generation comes to on a tree: nothing is touched unless the flow compiles, and the file of
the script holds its text as it was compiled. -/

namespace FlowScript

open FlowScript.Tree (Stored)

theorem Flow.trim_of_compileWith {flow : Flow} {settings : Settings} {text : String}
    (h : (flow.compileWith settings).1 = .ok text) : Text.trim text ++ "\n" = text := by
  unfold compileWith compile at h
  rw [Compile.runFrom_bind] at h
  generalize flow.script.runFrom settings .start = run at h
  obtain ⟨result, session⟩ := run
  cases result with
  | error error => cases h
  | ok script =>
    dsimp only at h
    rw [Script.runFrom_assemble] at h
    split at h
    · obtain rfl : script.text settings = text := Except.ok.inj h
      exact Layout.trim_normalize _ _
    · cases h

namespace Output

variable {tree after : Tree} {dir file text path : String}

theorem writeScript_eq_ok
    (h : (writeScript dir file text : Stored _).run tree = (.ok path, after)) :
    path = Path.join dir file ∧ ∃ middle,
      (makeDirAll dir : Stored _).run tree = (.ok (), middle) ∧
      middle.writeFile path (Text.trim text ++ "\n") = .ok after := by
  obtain ⟨middle, hmade, h⟩ := andThen_eq_ok h
  obtain ⟨written, hwritten, h⟩ := andThen_eq_ok h
  cases h
  exact ⟨rfl, middle, hmade, update_eq_ok hwritten⟩

end Output

def compiled (source : Except CompileError Flow) (settings : Settings) :
    Except CompileError String :=
  source.bind fun flow => (flow.compileWith settings).1

section Generate

variable {source : Except CompileError Flow} {options : GenerateOptions} {tree after : Tree}

theorem run_generate_of_error (tree : Tree) (options : GenerateOptions) {error : CompileError}
    (h : compiled source options.settings = .error error) :
    ∃ log, (generate source options : Stored _).run tree =
      ((.error (.compile error), log), tree) := by
  cases source with
  | error other =>
    obtain rfl : other = error := Except.error.inj h
    exact ⟨[], rfl⟩
  | ok flow =>
    cases hrun : flow.compileWith options.settings with
    | mk result log =>
      obtain rfl : result = .error error := by simpa [compiled, Except.bind, hrun] using h
      exact ⟨log.toList, by simp only [generate, hrun]; rfl⟩

theorem run_generate_of_ok (tree : Tree) {text : String}
    (h : compiled source options.settings = .ok text) :
    ∃ log, (generate source options : Stored _).run tree =
      let copied := (copyOptionalAssets options : Stored _).run tree
      let written :=
        (Output.writeScript options.outDir options.scriptFile text : Stored _).run copied.2
      match written.1 with
      | .error error => ((.error (.output error), log ++ copied.1), written.2)
      | .ok path => ((.ok path, log ++ copied.1 ++ [⟨.info, "script generated",
          [("path", path), ("bytes", toString text.utf8ByteSize)]⟩]), written.2) := by
  cases source with
  | error other => cases h
  | ok flow =>
    cases hrun : flow.compileWith options.settings with
    | mk result log =>
      obtain rfl : result = .ok text := by simpa [compiled, Except.bind, hrun] using h
      refine ⟨log.toList, ?_⟩
      simp only [generate, hrun]
      rw [Output.run_bind, Output.run_bind]
      generalize (Output.writeScript options.outDir options.scriptFile text : Stored _).run
        ((copyOptionalAssets options : Stored _).run tree).2 = written
      obtain ⟨result, after⟩ := written
      cases result <;> rfl

theorem generate_eq_compileError {error : CompileError} {log : List Event}
    (h : (generate source options : Stored _).run tree = ((.error (.compile error), log), after)) :
    compiled source options.settings = .error error ∧ after = tree := by
  cases hcompiled : compiled source options.settings with
  | error other =>
    obtain ⟨events, hrun⟩ := run_generate_of_error tree options hcompiled
    rw [hrun] at h
    cases h
    exact ⟨rfl, rfl⟩
  | ok text =>
    obtain ⟨events, hrun⟩ := run_generate_of_ok tree hcompiled
    rw [hrun] at h
    dsimp only at h
    split at h <;> cases h

theorem generate_eq_ok {path : String} {log : List Event}
    (h : (generate source options : Stored _).run tree = ((.ok path, log), after)) :
    ∃ text, compiled source options.settings = .ok text ∧
      ∃ copyLog middle, (copyOptionalAssets options : Stored _).run tree = (copyLog, middle) ∧
        copyLog ⊆ log ∧
        (Output.writeScript options.outDir options.scriptFile text : Stored _).run middle =
          (.ok path, after) := by
  cases hcompiled : compiled source options.settings with
  | error error =>
    obtain ⟨events, hrun⟩ := run_generate_of_error tree options hcompiled
    rw [hrun] at h
    cases h
  | ok text =>
    obtain ⟨events, hrun⟩ := run_generate_of_ok tree hcompiled
    rw [hrun] at h
    refine ⟨text, rfl, _, _, rfl, ?_, ?_⟩
    · dsimp only at h
      split at h
      · cases h
      · cases h
        exact fun event hevent => List.mem_append_left _ (List.mem_append_right _ hevent)
    · dsimp only at h
      split at h
      · cases h
      · rename_i hok
        cases h
        exact Prod.ext hok rfl

end Generate

namespace CommandLine

def Arguments.CompilesTo (arguments : Arguments) (tree : Tree) (script : String) : Prop :=
  ∃ text draft flow, tree.readFile arguments.descriptor = .ok text ∧
    FlowDraft.ofText text = .ok draft ∧ draft.validate = .ok flow ∧
    (flow.compileWith arguments.options.settings).1 = .ok script

theorem exists_compileFailed_eq (error : CompileError) :
    ∃ message, compileFailed error = ⟨1, "", message⟩ := by
  unfold compileFailed
  split
  · exact ⟨_, rfl⟩
  · exact ⟨_, rfl⟩

theorem runWith_of_not_compilesTo {arguments : Arguments} {tree : Tree}
    (h : ∀ script, ¬arguments.CompilesTo tree script) :
    ∃ message, (runWith arguments : Stored _).run tree = (⟨1, "", message⟩, tree) := by
  have hread : (FileSystem.readFile arguments.descriptor : Stored _).run tree =
      (tree.readFile arguments.descriptor, tree) := rfl
  rw [runWith, Output.run_bind, hread]
  cases htext : tree.readFile arguments.descriptor with
  | error error => exact ⟨_, rfl⟩
  | ok text =>
    dsimp only
    cases hdraft : FlowDraft.ofText text with
    | error fault => exact ⟨_, rfl⟩
    | ok draft =>
      have herror : ∃ error, compiled draft.validate arguments.options.settings = .error error := by
        cases hflow : draft.validate with
        | error error => exact ⟨error, rfl⟩
        | ok flow =>
          cases hscript : (flow.compileWith arguments.options.settings).1 with
          | error error => exact ⟨error, hscript⟩
          | ok script => exact absurd ⟨text, draft, flow, htext, hdraft, hflow, hscript⟩ (h script)
      obtain ⟨error, herror⟩ := herror
      obtain ⟨log, hrun⟩ := run_generate_of_error tree arguments.options herror
      dsimp only
      rw [Output.run_bind, hrun]
      obtain ⟨message, hmessage⟩ := exists_compileFailed_eq error
      exact ⟨message, congrArg (·, tree) hmessage⟩

end CommandLine

/-- A flow that does not compile leaves the tree alone, and a script is written as it was compiled.
The command line fails alike and leaves the tree alone as well. -/
theorem generate_all_or_nothing (tree : Tree) (source : Except CompileError Flow)
    (options : GenerateOptions) :
    (∀ error log after,
      (generate source options : Stored _).run tree = ((.error (.compile error), log), after) →
        compiled source options.settings = .error error ∧ after = tree) ∧
    (∀ error, compiled source options.settings = .error error →
      ∃ log, (generate source options : Stored _).run tree =
        ((.error (.compile error), log), tree)) ∧
    (∀ path log after, (generate source options : Stored _).run tree = ((.ok path, log), after) →
      path = Path.join options.outDir options.scriptFile ∧
        ∃ script, compiled source options.settings = .ok script ∧
          after.readFile path = .ok script) ∧
    ∀ args arguments, CommandLine.parse args = .run arguments →
      (∀ script, ¬arguments.CompilesTo tree script) →
        ∃ message, (CommandLine.run args : Stored _).run tree = (⟨1, "", message⟩, tree) := by
  refine ⟨fun _ _ _ => generate_eq_compileError,
    fun _ herror => run_generate_of_error tree options herror, ?_, ?_⟩
  · intro path log after h
    obtain ⟨text, hcompiled, -, middle, -, -, hscript⟩ := generate_eq_ok h
    obtain ⟨hpath, made, -, hwrite⟩ := Output.writeScript_eq_ok hscript
    have htext : Text.trim text ++ "\n" = text := by
      cases source with
      | error error => cases hcompiled
      | ok flow => exact flow.trim_of_compileWith hcompiled
    exact ⟨hpath, text, hcompiled, htext ▸ Tree.readFile_writeFile hwrite⟩
  · intro args arguments hargs hfails
    rw [CommandLine.run, hargs]
    exact CommandLine.runWith_of_not_compilesTo hfails

end FlowScript
