import FlowScript.Proofs.Files.CopyAssets
import FlowScript.Proofs.Generate.Outcome

/-! The assets beside a generated script: when they are all there, and when they are lost without a
word. -/

namespace FlowScript

open FlowScript.Path (IsName place parts)
open FlowScript.Tree (Stored)

/-- The target holds what the source held before, apart from the script. -/
def Tree.HoldsCopy (tree after : Tree) (source target script : List String) : Prop :=
  ∀ rest, target ++ rest ≠ script → after.view (target ++ rest) = tree.view (source ++ rest)

def WarnsOfAssets (log : List Event) : Prop :=
  ∃ event ∈ log, event.message = "asset copy failed, continuing without assets"

instance (log : List Event) : Decidable (WarnsOfAssets log) :=
  inferInstanceAs (Decidable (∃ event ∈ log, _))

section AssetTarget

variable (options : GenerateOptions) (assets : String)

theorem isName_assetName : IsName ((Path.fileName? assets).getD "assets") := by
  cases hname : Path.fileName? assets with
  | none => exact ⟨by decide, by decide, by decide, by decide⟩
  | some name =>
    obtain ⟨hlast, hup⟩ := Option.filter_eq_some_iff.mp hname
    obtain ⟨hmem, hhere⟩ := List.mem_filter.mp (List.mem_of_getLast? hlast)
    exact Path.isName_of_mem_parts hmem (by simpa using hhere) (by simpa using hup)

theorem parts_assetTarget : parts (options.assetTarget assets) =
    parts options.outDir ++ [(Path.fileName? assets).getD "assets"] :=
  Path.parts_join (isName_assetName assets) options.outDir

theorem place_assetTarget_ne_nil : place (options.assetTarget assets) ≠ [] := by
  rw [GenerateOptions.assetTarget, Path.place_join (isName_assetName assets)]
  exact List.append_ne_nil_of_right_ne_nil _ (List.cons_ne_nil _ _)

theorem passedBy_assetTarget {spot : List String} (h : Output.PassedBy options.outDir spot) :
    Output.PassedBy (options.assetTarget assets) spot := by
  obtain ⟨before, hbefore, hspot⟩ := h
  refine ⟨before, ?_, hspot⟩
  rw [parts_assetTarget]
  exact hbefore.trans (List.prefix_append _ _)

end AssetTarget

section Generate

variable {tree after : Tree} {source : Except CompileError Flow} {options : GenerateOptions}
  {assets path : String} {log : List Event}

theorem copyAssets_of_copyOptionalAssets (hassets : options.assets = some assets)
    (h : (copyOptionalAssets options : Stored _).run tree = (log, after))
    (hlog : ¬WarnsOfAssets log) :
    (Output.copyAssets assets (options.assetTarget assets) : Stored _).run tree =
      (.ok (), after) := by
  unfold copyOptionalAssets at h
  rw [hassets] at h
  dsimp only at h
  rw [Output.run_bind] at h
  cases hcopied : (Output.copyAssets assets (options.assetTarget assets) : Stored _).run tree with
  | mk result copied =>
    rw [hcopied] at h
    cases result with
    | ok done =>
      cases h
      rfl
    | error error =>
      cases h
      exact absurd ⟨_, List.mem_singleton_self _, rfl⟩ hlog

theorem exists_copyAssets_of_generate (hassets : options.assets = some assets)
    (h : (generate source options : Stored _).run tree = ((.ok path, log), after))
    (hlog : ¬WarnsOfAssets log) :
    ∃ copied, (Output.copyAssets assets (options.assetTarget assets) : Stored _).run tree =
        (.ok (), copied) ∧
      ∃ made, copied.MakesDirs (Output.PassedBy options.outDir) made ∧
        ∀ spot ≠ place path, after.view spot = made.view spot := by
  obtain ⟨text, -, copyLog, copied, hcopy, hsubset, hscript⟩ := generate_eq_ok h
  obtain ⟨-, made, hmade, hwrite⟩ := Output.writeScript_eq_ok hscript
  have hquiet : ¬WarnsOfAssets copyLog := fun ⟨event, hevent, hmessage⟩ =>
    hlog ⟨event, hsubset hevent, hmessage⟩
  refine ⟨copied, copyAssets_of_copyOptionalAssets hassets hcopy hquiet, made,
    Output.makesDirs_makeDirAll hmade, ?_⟩
  intro spot hspot
  rw [Tree.sets_writeFile hwrite spot, if_neg hspot]

theorem view_assetTarget_of_generate (htree : tree.IsProper)
    (hpasses : tree.PassesApart (options.assetTarget assets))
    (hassets : options.assets = some assets)
    (h : (generate source options : Stored _).run tree = ((.ok path, log), after))
    (hlog : ¬WarnsOfAssets log) (rest : List String)
    (hscript : place (options.assetTarget assets) ++ rest ≠ place path) :
    after.view (place (options.assetTarget assets) ++ rest) =
      if place assets = place (options.assetTarget assets) ∧ rest ≠ [] then none
      else tree.view (place assets ++ rest) := by
  obtain ⟨copied, hcopy, made, hmade, hafter⟩ := exists_copyAssets_of_generate hassets h hlog
  have hexact := Output.view_copyAssets_eq hpasses htree (place_assetTarget_ne_nil options assets)
    hcopy
  -- The script calls for no directory in the target: its own are among those that led there.
  rw [hafter _ hscript, ← hexact rest]
  refine hmade.view_eq fun hnone hpassed => ?_
  rcases hpasses _ (passedBy_assetTarget options assets hpassed) with habove | ⟨-, haside⟩
  · have hrest : rest = [] := by
      have hlength := habove.length_le
      rw [List.length_append] at hlength
      exact List.length_eq_zero_iff.mp (by omega)
    obtain ⟨hreaches, -⟩ := Output.copyAssets_eq_ok hcopy
    have htarget := hexact []
    rw [hrest] at hnone
    rw [hnone, if_neg (by simp), List.append_nil, hreaches.view_eq] at htarget
    cases htarget
  · exact haside (List.prefix_append _ _)

/-- Assets that the target does not take in are all copied. If no directory has to be made aside,
the target holds just them, or nothing when it is their own place. -/
theorem generate_holdsCopy_iff (htree : tree.IsProper) (hassets : options.assets = some assets)
    (h : (generate source options : Stored _).run tree = ((.ok path, log), after))
    (hlog : ¬WarnsOfAssets log) :
    (¬place (options.assetTarget assets) <+: place assets →
      ∀ rest node, place (options.assetTarget assets) ++ rest ≠ place path →
        tree.view (place assets ++ rest) = some node →
          after.view (place (options.assetTarget assets) ++ rest) = some node) ∧
    (tree.PassesApart (options.assetTarget assets) →
      (tree.HoldsCopy after (place assets) (place (options.assetTarget assets)) (place path) ↔
        (place assets = place (options.assetTarget assets) →
          ∀ rest ≠ [], place assets ++ rest ≠ place path →
            tree.view (place assets ++ rest) = none)) ∧
      (place assets = place (options.assetTarget assets) →
        ∀ rest ≠ [], place assets ++ rest ≠ place path →
          after.view (place assets ++ rest) = none)) := by
  refine ⟨?_, fun hpasses => ?_⟩
  · intro hbelow rest node hscript hnode
    obtain ⟨copied, hcopy, made, hmade, hafter⟩ := exists_copyAssets_of_generate hassets h hlog
    rw [hafter _ hscript]
    exact hmade.view_eq_some (Output.view_of_copyAssets htree
      (place_assetTarget_ne_nil options assets) hbelow hcopy hnode)
  · have hview := view_assetTarget_of_generate htree hpasses hassets h hlog
    refine ⟨⟨?_, ?_⟩, ?_⟩
    · intro hholds hsame rest hrest hscript
      rw [hsame] at hscript
      rw [← hholds rest hscript, hview rest hscript, if_pos ⟨hsame, hrest⟩]
    · intro hempty rest hscript
      rw [hview rest hscript]
      split
      · rename_i hboth
        obtain ⟨hsame, hrest⟩ := hboth
        rw [← hsame] at hscript
        exact (hempty hsame rest hrest hscript).symm
      · rfl
    · intro hsame rest hrest hscript
      rw [hsame] at hscript ⊢
      rw [hview rest hscript, if_pos ⟨hsame, hrest⟩]

end Generate

def probeFlow : Flow where
  options := .none
  precondition := [{
    sleep := none, assignments := [], response := none
    request := {
      endpoint := "/a", method := .get, auth := none, headers := [], cookies := [], params := [],
      query := [], body := none, tags := [], timeout := none } }]
  items := []
  postcondition := []

def assetTree : Tree :=
  .dir [("as", .dir [("k", .file "1")])]

theorem isProper_assetTree : assetTree.IsProper := by
  have hasset : IsName "k" := ⟨by decide, by decide, by decide, by decide⟩
  have hassets : IsName "as" := ⟨by decide, by decide, by decide, by decide⟩
  refine .dir (List.forall_mem_singleton.mpr ⟨hassets, by decide⟩) (by simp)
    (List.forall_mem_singleton.mpr ?_)
  exact .dir (List.forall_mem_singleton.mpr ⟨hasset, by decide⟩) (by simp)
    (List.forall_mem_singleton.mpr (.file "1"))

theorem exists_eq_of_toOption (run : (Except GenerateError String × List Event) × Tree)
    (path : String) (hpath : run.1.1.toOption = some path) (hlog : ¬WarnsOfAssets run.1.2) :
    ∃ log after, run = ((.ok path, log), after) ∧ ¬WarnsOfAssets log := by
  obtain ⟨⟨result, log⟩, after⟩ := run
  cases result with
  | error error => cases hpath
  | ok found =>
    obtain rfl := Option.some.inj hpath
    exact ⟨log, after, rfl, hlog⟩

theorem generate_holdsCopy_elsewhere :
    ∃ log after, (generate (.ok probeFlow) { outDir := "out", assets := some "as" } :
        Stored _).run assetTree = ((.ok "out/index.js", log), after) ∧ ¬WarnsOfAssets log ∧
      assetTree.HoldsCopy after ["as"] ["out", "as"] ["out", "index.js"] := by
  obtain ⟨log, after, hrun, hlog⟩ := exists_eq_of_toOption
    ((generate (.ok probeFlow) { outDir := "out", assets := some "as" } : Stored _).run assetTree)
    "out/index.js" (by decide +kernel) (by decide +kernel)
  have hpasses : assetTree.PassesApart
      (GenerateOptions.assetTarget { outDir := "out", assets := some "as" } "as") :=
    Tree.passesApart_of_up_notMem (by decide) assetTree
  have hiff := ((generate_holdsCopy_iff isProper_assetTree rfl hrun hlog).2 hpasses).1
  exact ⟨log, after, hrun, hlog, hiff.mpr fun hsame => absurd hsame (by decide)⟩

/-- Assets in the directory of the script are their own target: they are removed, and nothing is
left to copy. -/
theorem not_holdsCopy_of_assets_in_outDir :
    ∃ log after, (generate (.ok probeFlow) { outDir := "", assets := some "as" } :
        Stored _).run assetTree = ((.ok "index.js", log), after) ∧ ¬WarnsOfAssets log ∧
      ¬assetTree.HoldsCopy after ["as"] ["as"] ["index.js"] := by
  obtain ⟨log, after, hrun, hlog⟩ := exists_eq_of_toOption
    ((generate (.ok probeFlow) { outDir := "", assets := some "as" } : Stored _).run assetTree)
    "index.js" (by decide +kernel) (by decide +kernel)
  have hpasses : assetTree.PassesApart
      (GenerateOptions.assetTarget { outDir := "", assets := some "as" } "as") :=
    Tree.passesApart_of_up_notMem (by decide) assetTree
  refine ⟨log, after, hrun, hlog, fun hholds => ?_⟩
  have hlost : after.view ["as", "k"] = none :=
    view_assetTarget_of_generate isProper_assetTree hpasses rfl hrun hlog ["k"] (by decide)
  have hkept : after.view ["as", "k"] = assetTree.view ["as", "k"] := hholds ["k"] (by decide)
  exact absurd (hlost.symm.trans hkept) (by decide)

end FlowScript
