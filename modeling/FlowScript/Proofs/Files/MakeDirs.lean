import FlowScript.Files.Output
import FlowScript.Proofs.Files.Operations

/-! Runs on a tree that make directories: they are made where nothing was, among the places that a
path passes. -/

namespace FlowScript

open FlowScript.Path (IsName follow place parts)
open FlowScript.Tree (Stored)

namespace Tree

/-- Nothing changes but that directories are made at some of the places. -/
def MakesDirs (tree : Tree) (places : List String → Prop) (after : Tree) : Prop :=
  ∀ other, after.view other = tree.view other ∨
    tree.view other = none ∧ after.view other = some .dir ∧ places other

section MakesDirs

variable {tree middle after : Tree} {places : List String → Prop}

theorem MakesDirs.refl (places : List String → Prop) (tree : Tree) : tree.MakesDirs places tree :=
  fun _ => .inl rfl

theorem MakesDirs.trans (h : tree.MakesDirs places middle) (h' : middle.MakesDirs places after) :
    tree.MakesDirs places after := by
  intro other
  rcases h' other with hsame | ⟨hnone, hdir, hplace⟩
  · rw [hsame]
    exact h other
  · rcases h other with hsame | ⟨-, hold, -⟩
    · exact .inr ⟨hsame ▸ hnone, hdir, hplace⟩
    · exact absurd (hold.symm.trans hnone) (Option.some_ne_none _)

theorem MakesDirs.mono {more : List String → Prop} (h : tree.MakesDirs places after)
    (hmore : ∀ other, tree.view other = none → places other → more other) :
    tree.MakesDirs more after := by
  intro other
  refine (h other).imp_right ?_
  rintro ⟨hnone, hdir, hplace⟩
  exact ⟨hnone, hdir, hmore other hnone hplace⟩

theorem MakesDirs.view_eq (h : tree.MakesDirs places after) {other : List String}
    (hother : tree.view other = none → ¬places other) : after.view other = tree.view other := by
  rcases h other with hsame | ⟨hnone, -, hplace⟩
  · exact hsame
  · exact absurd hplace (hother hnone)

theorem MakesDirs.view_eq_some (h : tree.MakesDirs places after) {other : List String} {node : Item}
    (hother : tree.view other = some node) : after.view other = some node := by
  rw [h.view_eq fun hnone => absurd (hother.symm.trans hnone) (Option.some_ne_none _), hother]

end MakesDirs

theorem Sets.makesDirs {tree after : Tree} {spot : List String} {places : List String → Prop}
    (h : tree.Sets spot .dir after) (hnone : tree.view spot = none) (hspot : places spot) :
    tree.MakesDirs places after := by
  intro other
  rw [h other]
  by_cases heq : other = spot
  · rw [if_pos heq]
    exact .inr ⟨heq ▸ hnone, rfl, heq ▸ hspot⟩
  · exact .inl (if_neg heq)

theorem MakesDirs.keeps {tree after : Tree} {places : List String → Prop}
    (h : tree.MakesDirs places after) : tree.Keeps after where
  items other hother := by
    obtain ⟨node, hnode⟩ := Option.ne_none_iff_exists'.mp hother
    rw [h.view_eq_some hnode]
    exact Option.some_ne_none node
  dirs _ := h.view_eq_some

/-- The path can be followed, to a directory. -/
def Reaches (tree : Tree) (path : String) : Prop :=
  ∃ entries, tree.lookup path = .ok (place path, .dir entries)

theorem reaches_of_isDir {tree : Tree} {path : String}
    (h : ((FileSystem.isDir path : Stored Bool).run tree).1 = true) : tree.Reaches path := by
  cases hlookup : tree.lookup path with
  | error error => simp [FileSystem.isDir, hlookup] at h
  | ok found =>
    obtain ⟨stop, node⟩ := found
    obtain ⟨-, -, rfl, -⟩ := lookup_eq_ok hlookup
    cases node with
    | file text => simp [FileSystem.isDir, hlookup, isDirectory] at h
    | dir entries => exact ⟨entries, hlookup⟩

theorem Reaches.view_eq {tree : Tree} {path : String} (h : tree.Reaches path) :
    tree.view (place path) = some .dir := by
  obtain ⟨entries, hlookup⟩ := h
  obtain ⟨-, -, -, hnode⟩ := lookup_eq_ok hlookup
  exact view_eq_dir_iff.mpr ⟨entries, hnode⟩

theorem Keeps.reaches {tree after : Tree} {path : String} (h : tree.Keeps after)
    (hpath : tree.Reaches path) : after.Reaches path := by
  obtain ⟨entries, hlookup⟩ := hpath
  exact h.lookup hlookup

end Tree

namespace Output

theorem run_bind {α β : Type} (p : Stored α) (f : α → Stored β) (tree : Tree) :
    (p >>= f).run tree = (f (p.run tree).1).run (p.run tree).2 :=
  rfl

theorem andThen_eq_ok {ε α : Type} {p : Stored (FileResult Unit)} {next : Stored (Except ε α)}
    {fail : FileError → ε} {tree after : Tree} {a : α}
    (h : StateT.run (do
      match ← p with
      | .error error => return .error (fail error)
      | .ok () => next) tree = (.ok a, after)) :
    ∃ middle, p.run tree = (.ok (), middle) ∧ next.run middle = (.ok a, after) := by
  rw [run_bind] at h
  cases hp : p.run tree with
  | mk result middle =>
    rw [hp] at h
    cases result with
    | error error => cases h
    | ok done => exact ⟨middle, rfl, h⟩

theorem run_update (f : Tree → FileResult Tree) (tree : Tree) :
    (Tree.update f).run tree =
      match f tree with
      | .ok after => (.ok (), after)
      | .error error => (.error error, tree) := by
  rw [Tree.update, run_bind]
  cases h : f tree with
  | ok after => simp only [StateT.run_get, pure, h]; rfl
  | error error => simp only [StateT.run_get, pure, h]; rfl

theorem update_eq_ok {f : Tree → FileResult Tree} {tree after : Tree}
    (h : (Tree.update f).run tree = (.ok (), after)) : f tree = .ok after := by
  rw [run_update] at h
  split at h
  · rename_i changed hchanged
    rw [hchanged, (Prod.mk.inj h).2]
  · cases h

theorem run_makeDir (path : String) (tree : Tree) :
    (FileSystem.makeDir path : Stored _).run tree =
      match tree.makeDir path with
      | .ok after => (.ok (), after)
      | .error error => (.error error, tree) :=
  run_update _ tree

section MakeDirs

structure Makes (paths : List String) (tree : Tree) (made : FileResult Unit × Tree) : Prop where
  dirs : tree.MakesDirs (fun spot => ∃ path ∈ paths, place path = spot) made.2
  proper : tree.IsProper → made.2.IsProper
  reaches : made.1 = .ok () → ∀ path ∈ paths.head?, made.2.Reaches path

variable {tree after : Tree} {path : String} {parents : List String}

theorem makes_of_makeDir (h : tree.makeDir path = .ok after) :
    Makes (path :: parents) tree (.ok (), after) where
  dirs := (Tree.sets_makeDir h).makesDirs (Tree.view_eq_none_of_makeDir h)
    ⟨path, List.mem_cons_self .., rfl⟩
  proper := Tree.IsProper.makeDir h
  reaches := by
    rintro - _ ⟨⟩
    exact Tree.lookup_makeDir h

theorem run_unlessDir (path : String) (error : FileError) (tree : Tree) :
    (unlessDir path error : Stored _).run tree =
      (if ((FileSystem.isDir path : Stored Bool).run tree).1 then .ok () else .error error, tree) :=
  rfl

theorem makes_unlessDir (error : FileError) :
    Makes (path :: parents) tree ((unlessDir path error : Stored _).run tree) where
  dirs := .refl _ tree
  proper := id
  reaches := by
    rintro hok _ ⟨⟩
    rw [run_unlessDir] at hok ⊢
    split at hok
    · rename_i hdir
      exact Tree.reaches_of_isDir hdir
    · cases hok

theorem makes_attempt (path : String) (parents : List String) (tree : Tree) :
    Makes (path :: parents) tree (StateT.run (do
      match ← (FileSystem.makeDir path : Stored _) with
      | .ok () => return .ok ()
      | .error error => unlessDir path error) tree) := by
  rw [run_bind, run_makeDir]
  cases hmake : tree.makeDir path with
  | ok after => exact makes_of_makeDir hmake
  | error error => exact makes_unlessDir error

theorem Makes.of_parents {made : FileResult Unit × Tree} (h : Makes parents tree made)
    {made' : FileResult Unit × Tree} (h' : Makes (path :: parents) made.2 made') :
    Makes (path :: parents) tree made' where
  dirs := (h.dirs.mono fun _ _ ⟨path, hpath, hplace⟩ =>
    ⟨path, List.mem_cons_of_mem _ hpath, hplace⟩).trans h'.dirs
  proper := h'.proper ∘ h.proper
  reaches := h'.reaches

theorem makes_makeDirs (paths : List String) (tree : Tree) :
    Makes paths tree ((makeDirs paths : Stored _).run tree) := by
  induction paths generalizing tree with
  | nil => exact ⟨.refl _ tree, id, fun _ _ h => nomatch h⟩
  | cons path parents ih =>
    rw [makeDirs, run_bind]
    cases hmake : tree.makeDir path with
    | ok after =>
      simp only [run_makeDir, hmake]
      exact makes_of_makeDir hmake
    | error error =>
      simp only [run_makeDir, hmake]
      split
      · rename_i heq
        cases heq
      · -- The parents are missing: what they come to stays, also if the attempt behind them fails.
        rw [run_bind]
        have hparents := ih tree
        cases hmade : (makeDirs parents : Stored _).run tree with
        | mk result middle =>
          rw [hmade] at hparents
          cases result with
          | error error => exact hparents.of_parents ⟨.refl _ middle, id, (nomatch ·)⟩
          | ok done => exact hparents.of_parents (makes_attempt path parents middle)
      · exact makes_unlessDir _

def PassedBy (path : String) (spot : List String) : Prop :=
  ∃ before, before <+: parts path ∧ follow [] before = spot

section MakeDirAll

variable {tree after : Tree} {path : String} {result : FileResult Unit}
  (h : (makeDirAll path : Stored _).run tree = (result, after))

include h

theorem makes_makeDirAll : Makes (Path.upwards path) tree (result, after) :=
  h ▸ makes_makeDirs (Path.upwards path) tree

theorem makesDirs_makeDirAll : tree.MakesDirs (PassedBy path) after := by
  refine (makes_makeDirAll h).dirs.mono ?_
  rintro _ - ⟨upper, hupper, rfl⟩
  obtain ⟨before, hbefore, hplace⟩ := Path.place_of_mem_upwards hupper
  exact ⟨before, hbefore, hplace.symm⟩

theorem isProper_makeDirAll (htree : tree.IsProper) : after.IsProper :=
  (makes_makeDirAll h).proper htree

end MakeDirAll

theorem reaches_makeDirAll {tree after : Tree} {path : String} (hpath : path ≠ "")
    (h : (makeDirAll path : Stored _).run tree = (.ok (), after)) : after.Reaches path := by
  refine (makes_makeDirAll h).reaches rfl path ?_
  rw [Path.upwards, if_neg hpath]
  rfl

end MakeDirs

end Output

end FlowScript
