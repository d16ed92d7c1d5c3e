import FlowScript.Proofs.Files.CopyTree

/-! Runs on a tree that keep to some places, whether they end well or fail on the way. -/

namespace FlowScript

open FlowScript.Path (IsName follow place parts)
open FlowScript.Tree (Stored)

namespace Tree

/-- Away from the free places nothing changes but that directories are made, where nothing was, at
some other places. -/
structure Confined (tree : Tree) (free made : List String → Prop) (after : Tree) : Prop where
  elsewhere : ∀ spot, ¬free spot → after.view spot = tree.view spot ∨
    tree.view spot = none ∧ after.view spot = some .dir ∧ made spot
  proper : after.IsProper

section Confined

variable {tree middle after : Tree} {free made : List String → Prop}

theorem Confined.refl (htree : tree.IsProper) : tree.Confined free made tree :=
  ⟨fun _ _ => .inl rfl, htree⟩

theorem Confined.trans (h : tree.Confined free made middle) (h' : middle.Confined free made after) :
    tree.Confined free made after where
  elsewhere spot hspot := by
    rcases h'.elsewhere spot hspot with hsame | ⟨hnone, hdir, hmade⟩
    · rw [hsame]
      exact h.elsewhere spot hspot
    · rcases h.elsewhere spot hspot with hsame | ⟨-, hold, -⟩
      · exact .inr ⟨hsame ▸ hnone, hdir, hmade⟩
      · exact absurd (hold.symm.trans hnone) (Option.some_ne_none _)
  proper := h'.proper

theorem Sets.confined {spot : List String} {node : Item} (h : tree.Sets spot node after)
    (hspot : free spot) (hafter : after.IsProper) : tree.Confined free made after where
  elsewhere other hother := by
    have hne : other ≠ spot := by
      rintro rfl
      exact hother hspot
    exact .inl ((h other).trans (if_neg hne))
  proper := hafter

theorem MakesDirs.confined {places : List String → Prop} (h : tree.MakesDirs places after)
    (hplaces : ∀ spot, places spot → free spot ∨ made spot) (hafter : after.IsProper) :
    tree.Confined free made after where
  elsewhere spot hspot := (h spot).imp_right fun ⟨hnone, hdir, hplace⟩ =>
    ⟨hnone, hdir, (hplaces spot hplace).resolve_left hspot⟩
  proper := hafter

theorem Removes.confined {spot : List String} (h : tree.Removes spot after)
    (hfree : ∀ rest, free (spot ++ rest)) (hafter : after.IsProper) :
    tree.Confined free made after where
  elsewhere other hother := .inl (h.elsewhere other fun ⟨rest, hrest⟩ => hother (hrest ▸ hfree rest))
  proper := hafter

end Confined

end Tree

namespace Output

/-- A path may be made and filled: all at and below its end is free, and so is the way to it, or it
is among the places where directories may be made. -/
structure Admits (free made : List String → Prop) (path : String) : Prop where
  inside : ∀ rest, free (place path ++ rest)
  passed : ∀ spot, PassedBy path spot → free spot ∨ made spot

variable {tree : Tree} {free made : List String → Prop} {path source target : String}

theorem Admits.join {name : String} (h : Admits free made path) (hname : IsName name) :
    Admits free made (Path.join path name) where
  inside rest := by
    rw [Path.place_join hname, List.append_assoc]
    exact h.inside _
  passed := by
    rintro _ ⟨before, hbefore, rfl⟩
    rw [Path.parts_join hname, List.prefix_concat_iff] at hbefore
    rcases hbefore with rfl | hbefore
    · rw [Path.follow_append, Path.follow_name hname]
      exact .inl (h.inside [name])
    · exact h.passed _ ⟨before, hbefore, rfl⟩

section Steps

theorem related_andThen {ε α : Type} (related : Tree → Tree → Prop)
    (htrans : ∀ {a b c}, related a b → related b c → related a c) {p : Stored (FileResult Unit)}
    {next : Stored (Except ε α)} {fail : FileError → ε} (hp : related tree (p.run tree).2)
    (hnext : ∀ middle, related tree middle → related middle (next.run middle).2) :
    related tree (StateT.run (do
      match ← p with
      | .error error => return .error (fail error)
      | .ok () => next) tree).2 := by
  rw [run_bind]
  rcases hrun : p.run tree with ⟨error | ⟨⟩, middle⟩
  · rw [hrun] at hp
    exact hp
  · rw [hrun] at hp
    exact htrans hp (hnext middle hp)

theorem confined_andThen {ε α : Type} {p : Stored (FileResult Unit)}
    {next : Stored (Except ε α)} {fail : FileError → ε}
    (hp : tree.Confined free made (p.run tree).2)
    (hnext : ∀ middle : Tree, middle.IsProper → middle.Confined free made (next.run middle).2) :
    tree.Confined free made (StateT.run (do
      match ← p with
      | .error error => return .error (fail error)
      | .ok () => next) tree).2 :=
  related_andThen (Tree.Confined · free made ·) .trans hp fun middle h => hnext middle h.proper

theorem related_update (related : Tree → Tree → Prop) {f : Tree → FileResult Tree}
    (hrefl : related tree tree) (hf : ∀ after, f tree = .ok after → related tree after) :
    related tree ((Tree.update f).run tree).2 := by
  rw [run_update]
  split
  · exact hf _ ‹_›
  · exact hrefl

theorem confined_update {f : Tree → FileResult Tree} (htree : tree.IsProper)
    (hf : ∀ after, f tree = .ok after → tree.Confined free made after) :
    tree.Confined free made ((Tree.update f).run tree).2 :=
  related_update (Tree.Confined · free made ·) (.refl htree) hf

theorem confined_makeDirAll (htree : tree.IsProper)
    (hpassed : ∀ spot, PassedBy path spot → free spot ∨ made spot) :
    tree.Confined free made ((makeDirAll path : Stored _).run tree).2 :=
  (makesDirs_makeDirAll rfl).confined hpassed (isProper_makeDirAll rfl htree)

theorem confined_writeFile {text : String} (htree : tree.IsProper) (hfree : free (place path))
    {after : Tree} (h : tree.writeFile path text = .ok after) : tree.Confined free made after :=
  (Tree.sets_writeFile h).confined hfree (Tree.IsProper.writeFile h htree)

theorem confined_copyFile (htree : tree.IsProper) (hfree : free (place target)) {after : Tree}
    (h : tree.copyFile source target = .ok after) : tree.Confined free made after := by
  obtain ⟨opened, text, hopened, -, hwrite⟩ := Tree.copyFile_eq_ok h
  have hemptied : tree.Confined free made opened := confined_writeFile htree hfree hopened
  exact hemptied.trans (confined_writeFile hemptied.proper hfree hwrite)

theorem confined_removeDir (htree : tree.IsProper) (hroot : place path ≠ [])
    (hfree : ∀ rest, free (place path ++ rest)) :
    tree.Confined free made (tree.removeDir path).2 := by
  have hrun : tree.removeDir path = ((tree.removeDir path).1, (tree.removeDir path).2) := rfl
  rcases Tree.removeDir_cases hrun hroot with ⟨-, hsame⟩ | ⟨entries, hnode, hafter⟩
  · rw [hsame]
    exact .refl htree
  · obtain ⟨hremoves, hproper⟩ := Tree.removes_of_emptied htree hroot hnode hafter
    exact hremoves.confined hfree hproper

end Steps

section Copy

theorem confined_copyEach {copy : String × Bool → Stored (FileResult Unit)}
    {listed : List (String × Bool)} (htree : tree.IsProper)
    (hcopy : ∀ entry ∈ listed, ∀ middle : Tree, middle.IsProper →
      middle.Confined free made ((copy entry).run middle).2) :
    tree.Confined free made ((copyEach copy listed).run tree).2 := by
  induction listed generalizing tree with
  | nil => exact .refl htree
  | cons entry listed ih =>
    obtain ⟨hentry, hrest⟩ := List.forall_mem_cons.mp hcopy
    exact confined_andThen (hentry tree htree) fun middle hmiddle => ih hmiddle hrest

theorem confined_copyTree (levels : Nat) (htree : tree.IsProper)
    (htarget : Admits free made target) :
    tree.Confined free made ((copyTree levels source target : Stored _).run tree).2 := by
  induction levels generalizing source target tree with
  | zero => exact .refl htree
  | succ levels ih =>
    refine confined_andThen (confined_makeDirAll htree htarget.passed) fun middle hmiddle => ?_
    have hrun : (FileSystem.list source : Stored _).run middle = (middle.list source, middle) := rfl
    rw [run_bind, hrun]
    cases hlist : middle.list source with
    | error error => exact .refl hmiddle
    | ok listed =>
      refine confined_copyEach hmiddle fun ⟨name, isDir⟩ hentry before hbefore => ?_
      have hname := (Tree.view_of_mem_list hlist hmiddle hentry).1
      have hjoined := htarget.join hname
      cases isDir with
      | true => exact ih hbefore hjoined
      | false =>
        have hfree := hjoined.inside []
        rw [List.append_nil] at hfree
        exact confined_update hbefore fun _ => confined_copyFile hbefore hfree

theorem confined_copyAssets (htree : tree.IsProper) (hroot : place target ≠ [])
    (htarget : Admits free made target) :
    tree.Confined free made ((copyAssets source target : Stored _).run tree).2 := by
  have hcleared : tree.Confined free made (cleared tree target).2 := by
    unfold cleared
    split
    · exact confined_removeDir htree hroot htarget.inside
    · exact .refl htree
  have hends := copyEnds_copyAssets source target tree
  generalize (copyAssets source target : Stored _).run tree = ended at hends ⊢
  cases hends with
  | noAssets _ => exact .refl htree
  | notCleared _ hrun =>
    rw [hrun] at hcleared
    exact hcleared
  | @copied result removed after _ hrun hcopy =>
    rw [hrun] at hcleared
    have hcopied : removed.Confined free made
        ((copyTree maxLevels source target : Stored _).run removed).2 :=
      confined_copyTree maxLevels hcleared.proper htarget
    rw [hcopy] at hcopied
    exact hcleared.trans hcopied

end Copy

end Output

end FlowScript
