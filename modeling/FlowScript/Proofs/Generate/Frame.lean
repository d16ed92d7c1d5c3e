import FlowScript.Proofs.Files.Confinement
import FlowScript.Proofs.Generate.Assets

/-! What generation leaves alone. Apart from the assets in their target and the script, it makes
directories on the way to the output and touches nothing, whatever it comes to. -/

namespace FlowScript

open FlowScript.Path (IsName place)
open FlowScript.Tree (Stored)

section Options

variable (options : GenerateOptions)

/-- The places that are given up to the output: the script, and all at or below the target of the
assets. -/
def GenerateOptions.Writes (spot : List String) : Prop :=
  spot = place (Path.join options.outDir options.scriptFile) ∨
    ∃ assets, options.assets = some assets ∧ place (options.assetTarget assets) <+: spot

theorem admits_assetTarget {assets : String} (hassets : options.assets = some assets) :
    Output.Admits options.Writes (Output.PassedBy options.outDir) (options.assetTarget assets) where
  inside rest := .inr ⟨assets, hassets, List.prefix_append _ _⟩
  passed spot := by
    rintro ⟨before, hbefore, hspot⟩
    rw [parts_assetTarget, List.prefix_concat_iff] at hbefore
    rcases hbefore with hall | hbefore
    · rw [hall, ← parts_assetTarget] at hspot
      exact .inl (.inr ⟨assets, hassets, [], (List.append_nil _).trans hspot⟩)
    · exact .inr ⟨before, hbefore, hspot⟩

end Options

section Runs

variable {tree : Tree} {options : GenerateOptions} {source : Except CompileError Flow}

theorem Output.confined_writeScript {free made : List String → Prop} {dir file text : String}
    (htree : tree.IsProper) (hdir : ∀ spot, PassedBy dir spot → made spot)
    (hfile : free (place (Path.join dir file))) :
    tree.Confined free made ((writeScript dir file text : Stored _).run tree).2 := by
  refine confined_andThen (confined_makeDirAll htree fun spot h => .inr (hdir spot h)) ?_
  intro middle hmiddle
  refine confined_andThen ?_ fun _ => .refl
  exact confined_update hmiddle fun _ => confined_writeFile hmiddle hfile

theorem Output.keeps_writeScript (dir file text : String) (tree : Tree) :
    tree.Keeps ((writeScript dir file text : Stored _).run tree).2 := by
  refine related_andThen Tree.Keeps .trans (makesDirs_makeDirAll rfl).keeps fun middle _ => ?_
  refine related_andThen Tree.Keeps .trans ?_ fun written _ => .refl written
  refine related_update Tree.Keeps (.refl middle) fun after hwrite => ?_
  exact (Tree.sets_writeFile hwrite).keeps (Tree.view_ne_dir_of_writeFile hwrite)

theorem confined_copyOptionalAssets (htree : tree.IsProper) :
    tree.Confined options.Writes (Output.PassedBy options.outDir)
      ((copyOptionalAssets options : Stored _).run tree).2 := by
  unfold copyOptionalAssets
  cases hassets : options.assets with
  | none => exact .refl htree
  | some assets =>
    have hcopied : tree.Confined options.Writes (Output.PassedBy options.outDir)
        ((Output.copyAssets assets (options.assetTarget assets) : Stored _).run tree).2 :=
      Output.confined_copyAssets htree (place_assetTarget_ne_nil options assets)
        (admits_assetTarget options hassets)
    dsimp only
    rw [Output.run_bind]
    rcases hrun : (Output.copyAssets assets (options.assetTarget assets) : Stored _).run tree with
      ⟨result, copied⟩
    rw [hrun] at hcopied
    cases result <;> exact hcopied

theorem snd_run_generate (source : Except CompileError Flow) (options : GenerateOptions)
    (tree : Tree) :
    ((generate source options : Stored _).run tree).2 = tree ∨
      ∃ text, ((generate source options : Stored _).run tree).2 =
        ((Output.writeScript options.outDir options.scriptFile text : Stored _).run
          ((copyOptionalAssets options : Stored _).run tree).2).2 := by
  cases hcompiled : compiled source options.settings with
  | error error =>
    obtain ⟨log, hrun⟩ := run_generate_of_error tree options hcompiled
    exact .inl (by rw [hrun])
  | ok text =>
    obtain ⟨log, hrun⟩ := run_generate_of_ok tree hcompiled
    refine .inr ⟨text, ?_⟩
    rw [hrun]
    dsimp only
    split <;> rfl

theorem confined_generate (htree : tree.IsProper) :
    tree.Confined options.Writes (Output.PassedBy options.outDir)
      ((generate source options : Stored _).run tree).2 := by
  rcases snd_run_generate source options tree with hsame | ⟨text, hwritten⟩
  · rw [hsame]
    exact .refl htree
  · rw [hwritten]
    have hcopied : tree.Confined options.Writes (Output.PassedBy options.outDir)
        ((copyOptionalAssets options : Stored _).run tree).2 := confined_copyOptionalAssets htree
    exact hcopied.trans (Output.confined_writeScript hcopied.proper (fun _ => id) (.inl rfl))

theorem keeps_generate (hassets : options.assets = none) :
    tree.Keeps ((generate source options : Stored _).run tree).2 := by
  have hcopied : ((copyOptionalAssets options : Stored _).run tree).2 = tree := by
    rw [copyOptionalAssets, hassets]
    rfl
  rcases snd_run_generate source options tree with hsame | ⟨text, hwritten⟩
  · rw [hsame]
    exact .refl tree
  · rw [hwritten, hcopied]
    exact Output.keeps_writeScript options.outDir options.scriptFile text tree

end Runs

/-- However generation ends, all is as it was but the script, what is at or below the target of the
assets, and directories that are made on the way to the output where nothing was. Without assets, all
that was there is as it was but the script, and every directory is still there. -/
theorem generate_frame {tree after : Tree} {source : Except CompileError Flow}
    {options : GenerateOptions} {result : Except GenerateError String × List Event}
    (htree : tree.IsProper)
    (h : (generate source options : Stored _).run tree = (result, after)) :
    (∀ spot, spot ≠ place (Path.join options.outDir options.scriptFile) →
      (∀ assets, options.assets = some assets →
        ¬place (options.assetTarget assets) <+: spot) →
      after.view spot = tree.view spot ∨
        tree.view spot = none ∧ after.view spot = some .dir ∧
          Output.PassedBy options.outDir spot) ∧
    (options.assets = none →
      (∀ spot item, spot ≠ place (Path.join options.outDir options.scriptFile) →
        tree.view spot = some item → after.view spot = some item) ∧
      ∀ spot, tree.view spot = some .dir → after.view spot = some .dir) := by
  have hconfined : tree.Confined options.Writes (Output.PassedBy options.outDir)
      ((generate source options : Stored _).run tree).2 := confined_generate htree
  rw [h] at hconfined
  have helsewhere (spot : List String)
      (hscript : spot ≠ place (Path.join options.outDir options.scriptFile))
      (htarget : ∀ assets, options.assets = some assets →
        ¬place (options.assetTarget assets) <+: spot) :=
    hconfined.elsewhere spot fun hwrites => hwrites.elim hscript
      fun ⟨assets, hassets, hbelow⟩ => htarget assets hassets hbelow
  refine ⟨helsewhere, fun hassets => ⟨fun spot item hscript hitem => ?_, ?_⟩⟩
  · rcases helsewhere spot hscript (by simp [hassets]) with hsame | ⟨hnone, -⟩
    · rw [hsame, hitem]
    · exact absurd (hitem.symm.trans hnone) (Option.some_ne_none _)
  · have hkeeps : tree.Keeps ((generate source options : Stored _).run tree).2 :=
      keeps_generate hassets
    rw [h] at hkeeps
    exact hkeeps.dirs

theorem generate_frame_rootAssets :
    ∃ result after, (generate (.ok probeFlow)
        { outDir := "new", scriptFile := "../index.js", assets := some "." } : Stored _).run
          assetTree = (result, after) ∧
      assetTree.IsProper ∧ after.view ["as", "k"] = some (.file "1") := by
  obtain ⟨⟨result, after⟩, hrun⟩ : ∃ run, (generate (.ok probeFlow)
      { outDir := "new", scriptFile := "../index.js", assets := some "." } : Stored _).run
        assetTree = run := ⟨_, rfl⟩
  refine ⟨result, after, hrun, isProper_assetTree, ?_⟩
  have htarget : ∀ assets, some "." = some assets →
      ¬place (GenerateOptions.assetTarget { outDir := "new" } assets) <+: ["as", "k"] := by
    rintro _ ⟨⟩
    decide
  rcases (generate_frame isProper_assetTree hrun).1 ["as", "k"] (by decide) htarget with
    hsame | ⟨hnone, -⟩
  · exact hsame
  · exact absurd hnone (by decide)

end FlowScript
