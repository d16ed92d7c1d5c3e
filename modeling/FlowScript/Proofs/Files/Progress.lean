import FlowScript.Proofs.Files.CopyTree
import FlowScript.Proofs.Files.Walks
import Mathlib.Data.List.Induction

/-! Operations on plain paths that end well: what has to be seen in the tree for it. Where a file is
in the way, nothing is made and nothing is removed. -/

namespace FlowScript

open FlowScript.Path (IsName IsPlain parts place)
open FlowScript.Tree (Stored)
open FileResult (bind_eq_ok_iff)

theorem FileResult.bind_eq_error_iff {α β : Type} {result : FileResult α}
    {f : α → FileResult β} {error : FileError} :
    (result >>= f) = .error error ↔
      result = .error error ∨ ∃ a, result = .ok a ∧ f a = .error error := by
  cases result with
  | error other => simp [bind, Except.bind]
  | ok a => simp [bind, Except.bind]

open FileResult (bind_eq_error_iff)

namespace Tree

variable {tree : Tree} {path : String}

section Targets

variable {dir : List String} {entries : List (String × Tree)} {name text : String}

theorem targets_of_view (htree : tree.IsProper) (hnames : ∀ part ∈ parts path, IsName part)
    (hcheck : checkPath path = .ok ()) (hparts : parts path = dir ++ [name])
    (hlimit : name.utf8ByteSize ≤ nameLimit) (hdir : tree.view dir = some .dir) :
    ∃ entries, tree.Targets path dir entries name := by
  obtain ⟨entries, hnode⟩ := view_eq_dir_iff.mp hdir
  have hdirNames : ∀ part ∈ dir, IsName part := fun part hpart =>
    hnames part (hparts ▸ List.mem_append_left _ hpart)
  refine ⟨entries, hcheck, ?_, hnode, by simp [hparts], hnames name (by simp [hparts]), hlimit⟩
  rw [hparts, List.dropLast_concat]
  exact walk_of_view htree hdirNames (by simp [hdir])

namespace Targets

variable (h : tree.Targets path dir entries name)

include h

theorem target_eq : tree.target path = .ok ⟨dir, entries, some name⟩ := by
  refine bind_eq_ok_iff.mpr ⟨(), h.check, bind_eq_ok_iff.mpr ⟨dir, h.walk, ?_⟩⟩
  simp only [h.node, h.last]
  rw [if_neg (not_or.mpr ⟨h.isName.ne_here, h.isName.ne_up⟩), if_neg (Nat.not_lt.mpr h.limit)]

theorem makeDir_eq : tree.makeDir path =
    if tree.view (place path) = none then .ok (tree.put (dir ++ [name]) empty)
    else .error .exists := by
  rw [makeDir, h.target_eq, h.view_eq]
  cases hfind : find? name entries <;> simp [hfind, empty, bind, Except.bind]

theorem writeFile_eq (hslash : Path.endsInSlash path = false)
    (hview : tree.view (place path) ≠ some .dir) :
    tree.writeFile path text = .ok (tree.put (dir ++ [name]) (.file text)) := by
  refine bind_eq_ok_iff.mpr ⟨_, h.target_eq, ?_⟩
  rw [h.view_eq] at hview
  simp only [hslash]
  cases hfind : find? name entries with
  | none => rfl
  | some node =>
    cases node with
    | file old => rfl
    | dir children => simp [hfind, item] at hview

end Targets

end Targets

section MakeDir

variable {after : Tree}

theorem isOpen_of_makeDir_eq_ok (h : tree.makeDir path = .ok after) :
    tree.IsOpen (place path) ∧ checkPath path = .ok () := by
  have hnone := view_eq_none_of_makeDir h
  obtain ⟨dir, entries, name, htargets, -, -⟩ := makeDir_eq_ok h
  rw [htargets.place_eq] at hnone ⊢
  exact ⟨isOpen_of_missing (view_eq_dir_iff.mpr ⟨entries, htargets.node⟩) hnone List.prefix_rfl,
    htargets.check⟩

theorem isOpen_of_makeDir_eq_notFound (hpath : IsPlain path)
    (h : tree.makeDir path = .error .notFound) :
    tree.IsOpen (place path) ∧ checkPath path = .ok () := by
  rw [hpath.place_eq]
  rcases bind_eq_error_iff.mp h with htarget | ⟨⟨dir, entries, name⟩, -, h⟩
  · rcases bind_eq_error_iff.mp htarget with hcheck | ⟨⟨⟩, hcheck, h⟩
    · exact absurd hcheck (checkPath_ne_notFound hpath.ne_empty)
    · refine ⟨?_, hcheck⟩
      have hends : tree.Ends [] (parts path).dropLast (tree.walk [] (parts path).dropLast) :=
        ends_walk (fun _ hpart => hpath.isName (List.dropLast_subset _ hpart)) (by simp [view, at?])
      rcases bind_eq_error_iff.mp h with hwalk | ⟨dir, hwalk, h⟩
      · rw [hwalk] at hends
        cases hends with
        | missing hbefore hdir hnone =>
          exact isOpen_of_missing hdir hnone (hbefore.trans (List.dropLast_prefix _))
      · have hthere : tree.view dir ≠ none := view_of_walk (by simp [view, at?]) hwalk
        split at h
        · split at h
          · cases h
          · split at h <;> cases h
        · cases h
        · cases h
        · rename_i hnode
          exact absurd (by rw [view, hnode, Option.map_none]) hthere
  · cases name with
    | none => cases h
    | some name =>
      dsimp only at h
      split at h <;> cases h

theorem makeDir_eq_notFound {dir : List String} {name : String} (hpath : IsPlain path)
    (hcheck : checkPath path = .ok ()) (hparts : parts path = dir ++ [name])
    (hlimits : ∀ part ∈ dir, part.utf8ByteSize ≤ nameLimit) (hopen : tree.IsOpen dir)
    (hnone : tree.view dir = none) : tree.makeDir path = .error .notFound := by
  have hwalk : tree.walk [] dir = .error .notFound := by
    have hisName : ∀ part ∈ dir, IsName part := fun part hpart =>
      hpath.isName (hparts ▸ List.mem_append_left _ hpart)
    have hends : tree.Ends [] dir (tree.walk [] dir) := ends_walk hisName (by simp [view, at?])
    generalize tree.walk [] dir = result at hends ⊢
    cases hends with
    | there hview => exact absurd hnone hview
    | missing _ _ _ => rfl
    | blocked hbefore _ hfile => exact absurd hfile (hopen _ hbefore _)
    | tooLong hpart hlimit => exact absurd (hlimits _ hpart) (Nat.not_le.mpr hlimit)
  refine bind_eq_error_iff.mpr (.inl (bind_eq_error_iff.mpr (.inr ⟨(), hcheck, ?_⟩)))
  exact bind_eq_error_iff.mpr (.inl (by rwa [hparts, List.dropLast_concat]))

theorem makeDir_of_view {dir : List String} {name : String} (htree : tree.IsProper)
    (hpath : IsPlain path) (hcheck : checkPath path = .ok ()) (hparts : parts path = dir ++ [name])
    (hlimit : name.utf8ByteSize ≤ nameLimit) (hdir : tree.view dir = some .dir)
    (hfile : ∀ text, tree.view (place path) ≠ some (.file text)) :
    (∃ after, tree.makeDir path = .ok after) ∨
      tree.makeDir path = .error .exists ∧
        ((FileSystem.isDir path : Stored Bool).run tree).1 = true := by
  obtain ⟨entries, htargets⟩ :=
    targets_of_view htree (fun _ => hpath.isName) hcheck hparts hlimit hdir
  rw [htargets.makeDir_eq, isDir_eq_true_iff htree hpath]
  cases hview : tree.view (place path) with
  | none => exact .inl ⟨_, if_pos rfl⟩
  | some node =>
    cases node with
    | dir => exact .inr ⟨if_neg (Option.some_ne_none _), hcheck, rfl⟩
    | file text => exact absurd hview (hfile text)

end MakeDir

section CopyFile

variable {source target name text : String} (hname : IsName name) (htree : tree.IsProper)

include hname htree

theorem readFile_join (hsource : IsPlain source)
    (hcheck : checkPath (Path.join source name) = .ok ())
    (hfile : tree.view (place source ++ [name]) = some (.file text)) :
    tree.readFile (Path.join source name) = .ok text :=
  readFile_of_view htree (hsource.join hname) hcheck (Path.place_join hname source ▸ hfile)
    (Path.endsInSlash_join hname source)

theorem exists_writeFile_join (htarget : IsPlain target)
    (hcheck : checkPath (Path.join target name) = .ok ())
    (hlimit : name.utf8ByteSize ≤ nameLimit) (hdir : tree.view (place target) = some .dir)
    (hview : tree.view (place target ++ [name]) ≠ some .dir) (text : String) :
    ∃ after, tree.writeFile (Path.join target name) text = .ok after := by
  have hplain := htarget.join hname
  obtain ⟨entries, htargets⟩ := targets_of_view htree (fun _ => hplain.isName) hcheck
    (Path.parts_join hname target) hlimit (htarget.place_eq ▸ hdir)
  refine ⟨_, htargets.writeFile_eq (Path.endsInSlash_join hname target) ?_⟩
  rwa [Path.place_join hname]

theorem copyFile_isOk_iff (hsource : IsPlain source) (htarget : IsPlain target)
    (hfile : tree.view (place source ++ [name]) = some (.file text))
    (hdir : tree.view (place target) = some .dir)
    (hnone : tree.view (place target ++ [name]) = none) :
    (∃ after, tree.copyFile (Path.join source name) (Path.join target name) = .ok after) ↔
      checkPath (Path.join source name) = .ok () ∧ checkPath (Path.join target name) = .ok () := by
  constructor
  · rintro ⟨after, h⟩
    obtain ⟨found, hread, -⟩ := bind_eq_ok_iff.mp h
    obtain ⟨opened, -, hopened, -⟩ := copyFile_eq_ok h
    obtain ⟨⟨stop, node⟩, hlookup, -⟩ := bind_eq_ok_iff.mp hread
    obtain ⟨dir, entries, last, htargets, -⟩ := writeFile_eq_ok hopened
    exact ⟨(lookup_eq_ok hlookup).1, htargets.check⟩
  · rintro ⟨hsourceCheck, htargetCheck⟩
    have hthere : tree.view (place source ++ [name]) ≠ none := by simp [hfile]
    have hlimit : name.utf8ByteSize ≤ nameLimit := (htree.names_of_view hthere name (by simp)).2
    have hread := readFile_join hname htree hsource hsourceCheck hfile
    obtain ⟨opened, hopened⟩ :=
      exists_writeFile_join hname htree htarget htargetCheck hlimit hdir (by simp [hnone]) ""
    -- The source is read again behind the opening of the target, which is another file.
    have hproper := IsProper.writeFile hopened htree
    have hsets := sets_writeFile hopened
    rw [Path.place_join hname] at hsets
    have hne : place source ++ [name] ≠ place target ++ [name] := by
      intro heq
      rw [← heq, hfile] at hnone
      cases hnone
    have hreadAgain := readFile_join hname hproper hsource hsourceCheck
      (((hsets _).trans (if_neg hne)).trans hfile)
    have hthere : opened.view (place target) = some .dir :=
      ((hsets _).trans (if_neg (by simp))).trans hdir
    have hopen : opened.view (place target ++ [name]) ≠ some .dir := by
      rw [hsets, if_pos rfl]
      exact fun heq => nomatch heq
    obtain ⟨after, hafter⟩ :=
      exists_writeFile_join hname hproper htarget htargetCheck hlimit hthere hopen text
    exact ⟨after, bind_eq_ok_iff.mpr ⟨text, hread, bind_eq_ok_iff.mpr ⟨opened, hopened,
      bind_eq_ok_iff.mpr ⟨text, hreadAgain, hafter⟩⟩⟩⟩

end CopyFile

theorem removeEmptied_of_isName {dir stop : List String} {last : String}
    (hparts : parts path = dir ++ [last]) (hlast : IsName last)
    (hwalk : tree.walk [] dir = .ok stop) (place : List String) :
    tree.removeEmptied path place = (.ok (), tree.erase place) := by
  simp only [removeEmptied, hparts, List.dropLast_concat, hwalk, List.getLast?_concat]
  split
  · rename_i hnone
    cases hnone
  · rename_i hhere
    exact absurd (Option.some.inj hhere) hlast.ne_here
  · rename_i hup
    exact absurd (Option.some.inj hup) hlast.ne_up
  · rfl

end Tree

namespace Output

variable {tree : Tree} {path : String}

theorem prefix_of_passedBy (hpath : IsPlain path) {spot : List String} (h : PassedBy path spot) :
    spot <+: place path := by
  obtain ⟨before, hbefore, rfl⟩ := h
  have hnames : ∀ part ∈ before, IsName part := fun part hpart =>
    hpath.isName (hbefore.subset hpart)
  rw [hpath.place_eq, Path.follow_of_isName hnames]
  exact hbefore

theorem makeDirAll_eq_error (htree : tree.IsProper) (hpath : IsPlain path)
    (h : ¬(tree.IsOpen (place path) ∧ Tree.checkPath path = .ok ())) :
    ∃ error, (makeDirAll path : Stored _).run tree = (.error error, tree) := by
  rw [makeDirAll, Path.upwards, if_neg hpath.ne_empty, makeDirs, run_bind, run_makeDir]
  -- Nothing is made, and no parent is tried, because the file in the way is met first.
  cases hmake : tree.makeDir path with
  | ok after => exact absurd (Tree.isOpen_of_makeDir_eq_ok hmake) h
  | error error =>
    have herror : error ≠ .notFound := by
      rintro rfl
      exact h (Tree.isOpen_of_makeDir_eq_notFound hpath hmake)
    have hlost : ((FileSystem.isDir path : Stored Bool).run tree).1 = false := by
      rw [Bool.eq_false_iff, ne_eq, Tree.isDir_eq_true_iff htree hpath]
      rintro ⟨hcheck, hdir⟩
      exact h ⟨Tree.isOpen_of_view_eq_dir hdir, hcheck⟩
    refine ⟨error, ?_⟩
    split
    · rename_i heq
      cases heq
    · rename_i heq
      cases heq
      exact absurd rfl herror
    · rename_i heq
      cases heq
      simp [run_unlessDir, hlost]

section MakeDirAll

variable {dir : List String} {name : String} (htree : tree.IsProper) (hpath : IsPlain path)
  (hcheck : Tree.checkPath path = .ok ()) (hparts : parts path = dir ++ [name])

include htree hpath hcheck hparts

theorem makeDirAll_of_parent (hlimit : name.utf8ByteSize ≤ Tree.nameLimit)
    (hopen : tree.IsOpen (place path)) (hdir : tree.view dir = some .dir) :
    ((makeDirAll path : Stored _).run tree).1 = .ok () := by
  rw [makeDirAll, Path.upwards, if_neg hpath.ne_empty, makeDirs, run_bind, run_makeDir]
  rcases Tree.makeDir_of_view htree hpath hcheck hparts hlimit hdir (hopen _ List.prefix_rfl) with
    ⟨after, hmake⟩ | ⟨hmake, hthere⟩
  · rw [hmake]
    rfl
  · rw [hmake]
    simp [run_unlessDir, hthere]

theorem exists_attempt (hlimits : ∀ part ∈ dir, part.utf8ByteSize ≤ Tree.nameLimit)
    (hopen : tree.IsOpen dir) (hnone : tree.view dir = none)
    (hparent : ((makeDirAll (Path.ofNames false dir) : Stored _).run tree).1 = .ok ()) :
    ∃ middle : Tree, middle.IsProper ∧ middle.view dir = some .dir ∧
      tree.MakesDirs (· <+: dir) middle ∧
      (makeDirAll path : Stored _).run tree =
        match middle.makeDir path with
        | .ok after => (.ok (), after)
        | .error error => (unlessDir path error : Stored _).run middle := by
  have hne := Tree.ne_nil_of_view_eq_none hnone
  have habove : dir <+: parts path := hparts ▸ List.prefix_append _ _
  have hplain := hpath.parent hne habove
  have hplace : place (Path.ofNames false dir) = dir :=
    hplain.place_eq.trans (Path.parts_parent habove)
  rcases hmade : (makeDirAll (Path.ofNames false dir) : Stored _).run tree with ⟨result, middle⟩
  rw [hmade] at hparent
  obtain rfl : result = .ok () := hparent
  have hmissing := Tree.makeDir_eq_notFound hpath hcheck hparts hlimits hopen hnone
  refine ⟨middle, isProper_makeDirAll hmade htree, ?_, ?_, ?_⟩
  · have hview := (reaches_makeDirAll hplain.ne_empty hmade).view_eq
    rwa [hplace] at hview
  · refine (makesDirs_makeDirAll hmade).mono fun spot _ hpassed => ?_
    exact hplace ▸ prefix_of_passedBy hplain hpassed
  · rw [makeDirAll] at hmade
    rw [makeDirAll, hpath.upwards_eq hparts hne, makeDirs, run_bind, run_makeDir, hmissing]
    dsimp only
    rw [run_bind, hmade]
    dsimp only
    rw [run_bind, run_makeDir]
    cases middle.makeDir path <;> rfl

end MakeDirAll

theorem makeDirAll_eq_ok (htree : tree.IsProper) (hpath : IsPlain path)
    (hcheck : Tree.checkPath path = .ok ())
    (hlimits : ∀ name ∈ parts path, name.utf8ByteSize ≤ Tree.nameLimit)
    (hopen : tree.IsOpen (place path)) :
    ((makeDirAll path : Stored _).run tree).1 = .ok () := by
  obtain ⟨names, hparts⟩ : ∃ names, parts path = names := ⟨_, rfl⟩
  induction names using List.reverseRecOn generalizing path with
  | nil => exact absurd hparts hpath.parts_ne_nil
  | append_singleton dir name ih =>
    have habove : dir <+: parts path := hparts ▸ List.prefix_append _ _
    have hlimit : name.utf8ByteSize ≤ Tree.nameLimit := hlimits name (by simp [hparts])
    have hlimitsAbove : ∀ part ∈ dir, part.utf8ByteSize ≤ Tree.nameLimit := fun part hpart =>
      hlimits part (habove.subset hpart)
    have hopenAbove : tree.IsOpen dir := fun above h =>
      hopen above (hpath.place_eq ▸ h.trans habove)
    by_cases hdir : tree.view dir = some .dir
    · exact makeDirAll_of_parent htree hpath hcheck hparts hlimit hopen hdir
    · have hnone := hopenAbove.view_eq_none hdir
      have hne := Tree.ne_nil_of_view_eq_none hnone
      have hplain := hpath.parent hne habove
      have hnames := Path.parts_parent habove
      obtain ⟨middle, hmiddle, hmade, hdirs, hrun⟩ := exists_attempt htree hpath hcheck hparts
        hlimitsAbove hopenAbove hnone (ih hplain (Tree.checkPath_parent hpath hcheck hne habove)
          (by rwa [hnames]) (by rwa [hplain.place_eq, hnames]) hnames)
      -- With its parent made, the attempt ends as it does where the parent was there.
      rw [hrun]
      rcases Tree.makeDir_of_view hmiddle hpath hcheck hparts hlimit hmade
        (hopen.of_makesDirs hdirs _ List.prefix_rfl) with ⟨after, hmake⟩ | ⟨hmake, hthere⟩
      · rw [hmake]
      · rw [hmake]
        simp [run_unlessDir, hthere]

/-- If a name is too long for the directory, the ones above it are made all the same. -/
theorem makeDirAll_of_longName {dir : List String} {name : String} (htree : tree.IsProper)
    (hpath : IsPlain path) (hcheck : Tree.checkPath path = .ok ())
    (hparts : parts path = dir ++ [name])
    (hlimits : ∀ part ∈ dir, part.utf8ByteSize ≤ Tree.nameLimit)
    (hlong : Tree.nameLimit < name.utf8ByteSize) (hopen : tree.IsOpen dir) :
    ∃ error middle, (makeDirAll path : Stored _).run tree = (.error error, middle) ∧
      middle.view dir = some .dir := by
  rcases hmade : (makeDirAll path : Stored _).run tree with ⟨error | ⟨⟩, middle⟩
  · refine ⟨error, middle, rfl, ?_⟩
    by_cases hdir : tree.view dir = some .dir
    · exact (makesDirs_makeDirAll hmade).view_eq_some hdir
    · have hnone := hopen.view_eq_none hdir
      have hne := Tree.ne_nil_of_view_eq_none hnone
      have habove : dir <+: parts path := hparts ▸ List.prefix_append _ _
      have hplain := hpath.parent hne habove
      have hnames := Path.parts_parent habove
      have hparent := makeDirAll_eq_ok htree hplain (Tree.checkPath_parent hpath hcheck hne habove)
        (by rwa [hnames]) (by rwa [hplain.place_eq, hnames])
      obtain ⟨upper, -, hview, -, hrun⟩ :=
        exists_attempt htree hpath hcheck hparts hlimits hopen hnone hparent
      rw [hmade] at hrun
      split at hrun
      · cases hrun
      · obtain rfl := (Prod.mk.inj hrun).2
        exact hview
  · have hview := (reaches_makeDirAll hpath.ne_empty hmade).view_eq
    rw [hpath.place_eq, hparts] at hview
    have hshort := (isProper_makeDirAll hmade htree).names_of_view (hview ▸ Option.some_ne_none _)
      name (by simp)
    exact absurd hshort.2 (Nat.not_le.mpr hlong)

section Cleared

theorem exists_removeDir (hpath : IsPlain path) (htree : tree.IsProper) (h : tree.Reaches path) :
    ∃ removed, tree.removeDir path = (.ok (), removed) := by
  obtain ⟨entries, hlookup⟩ := h
  obtain ⟨-, -, -, hnode⟩ := Tree.lookup_eq_ok hlookup
  obtain ⟨hremoves, hproper⟩ := Tree.removes_of_emptied htree hpath.place_ne_nil hnode (.inl rfl)
  obtain ⟨dir, last, hparts⟩ : ∃ dir last, parts path = dir ++ [last] :=
    ⟨_, _, (List.dropLast_append_getLast hpath.parts_ne_nil).symm⟩
  have hisName : ∀ part ∈ dir ++ [last], IsName part := fun part hpart =>
    hpath.isName (hparts ▸ hpart)
  -- What is above the directory does not go with it, so its path can still be followed that far.
  have hwalk : (tree.put (place path) Tree.empty).walk [] dir = .ok dir := by
    refine Tree.walk_of_view hproper (fun part hpart => hisName part (by simp [hpart])) ?_
    have hplace : place path = dir ++ [last] := hpath.place_eq.trans hparts
    have habove : tree.view dir = some .dir := by
      have hthere : tree.view (place path) ≠ none := by simp [Tree.view, hnode]
      exact Tree.view_above hthere (by simp [hplace]) (by simp [hplace])
    rw [hremoves.elsewhere dir fun hprefix => ?_, habove]
    · exact Option.some_ne_none _
    · rw [hplace] at hprefix
      exact absurd hprefix.length_le (by simp)
  refine ⟨(tree.put (place path) Tree.empty).erase (place path), ?_⟩
  simp only [Tree.removeDir, hlookup, if_neg hpath.place_ne_nil]
  exact Tree.removeEmptied_of_isName hparts (hisName last (by simp)) hwalk (place path)

theorem cleared_eq_ok (hpath : IsPlain path) (htree : tree.IsProper)
    (hcheck : Tree.checkPath path = .ok ()) (hopen : tree.IsOpen (place path)) :
    ∃ removed, cleared tree path = (.ok (), removed) ∧ tree.Removes (place path) removed ∧
      removed.IsProper := by
  by_cases hdir : tree.view (place path) = some .dir
  · have hreaches := (Tree.reaches_iff htree hpath).mpr ⟨hcheck, hdir⟩
    obtain ⟨removed, hremoved⟩ := exists_removeDir hpath htree hreaches
    obtain ⟨entries, hlookup⟩ := hreaches
    refine ⟨removed, ?_, Tree.removes_removeDir htree hremoved hpath.place_ne_nil⟩
    rw [cleared, hlookup]
    exact hremoved
  · have hnone := hopen.view_eq_none hdir
    refine ⟨tree, ?_, ⟨.inl hnone, fun rest hrest => ?_, fun _ _ => rfl⟩, htree⟩
    · refine if_neg fun hthere => ?_
      obtain ⟨node, hlookup⟩ := Tree.exists_of_isOk_lookup hthere
      obtain ⟨-, -, -, hnode⟩ := Tree.lookup_eq_ok hlookup
      rw [Tree.view, hnode] at hnone
      cases hnone
    · exact Tree.view_below (by simp [hnone]) hrest

theorem cleared_eq_self (hpath : IsPlain path)
    (h : ¬(tree.IsOpen (place path) ∧ Tree.checkPath path = .ok ())) :
    (cleared tree path).2 = tree := by
  unfold cleared
  split
  · rename_i hthere
    have hrun : tree.removeDir path = ((tree.removeDir path).1, (tree.removeDir path).2) := rfl
    rcases Tree.removeDir_cases hrun hpath.place_ne_nil with ⟨-, hsame⟩ | ⟨entries, hnode, -⟩
    · exact hsame
    · obtain ⟨node, hlookup⟩ := Tree.exists_of_isOk_lookup hthere
      have hdir := Tree.view_eq_dir_iff.mpr ⟨entries, hnode⟩
      exact absurd ⟨Tree.isOpen_of_view_eq_dir hdir, (Tree.lookup_eq_ok hlookup).1⟩ h
  · rfl

end Cleared

end Output

end FlowScript
