import FlowScript.Proofs.Files.MakeDirs

/-! Runs on a tree that copy a directory: its entries come to stand in the target, over what was
there. A copy into the source itself never ends well. -/

namespace FlowScript

open FlowScript.Path (IsName follow place parts)
open FlowScript.Tree (Stored)

namespace Tree

/-- None of two places is at or below the other. -/
def Apart (source target : List String) : Prop :=
  ∀ rest rest', source ++ rest ≠ target ++ rest'

section Apart

variable {source target : List String}

theorem apart_of_not_below (h : ¬source <+: target) (h' : ¬target <+: source) :
    Apart source target := by
  intro rest rest' heq
  rcases List.prefix_or_prefix_of_prefix ⟨rest, heq⟩ ⟨rest', rfl⟩ with hprefix | hprefix
  · exact h hprefix
  · exact h' hprefix

theorem Apart.below (h : Apart source target) (more : List String) :
    Apart (source ++ more) (target ++ more) := by
  intro rest rest' heq
  rw [List.append_assoc, List.append_assoc] at heq
  exact h _ _ heq

theorem Apart.not_below (h : Apart source target) (rest : List String) :
    ¬target <+: source ++ rest := by
  rintro ⟨rest', heq⟩
  exact h rest rest' heq.symm

theorem entry_above_iff {place rest : List String} {name other : String} :
    place ++ [name] <+: place ++ other :: rest ↔ name = other := by
  simp [List.prefix_append_right_inj]

end Apart

/-- What is at and below one place comes to stand at and below another, over what was there. -/
structure Merges (tree : Tree) (source target : List String) (after : Tree) : Prop where
  below : ∀ rest, after.view (target ++ rest) =
    (tree.view (source ++ rest)).or (tree.view (target ++ rest))
  elsewhere : ∀ other, ¬target <+: other → after.view other = tree.view other
  keeps : tree.Keeps after

structure MergesEach (tree : Tree) (source target : List String) (names : List String)
    (after : Tree) : Prop where
  below : ∀ name ∈ names, ∀ rest, after.view (target ++ name :: rest) =
    (tree.view (source ++ name :: rest)).or (tree.view (target ++ name :: rest))
  elsewhere : ∀ other, (∀ name ∈ names, ¬target ++ [name] <+: other) →
    after.view other = tree.view other
  keeps : tree.Keeps after

section Merges

variable {tree middle after : Tree} {source target : List String}

theorem Sets.merges {node : Item} (h : tree.Sets target node after)
    (hsource : tree.view source = some node) (hnode : node ≠ .dir)
    (htarget : tree.view target ≠ some .dir) : tree.Merges source target after where
  below rest := by
    rw [h]
    by_cases hrest : rest = []
    · simp [hrest, hsource]
    · have hnone : tree.view (source ++ rest) = none :=
        view_below (by simpa [hsource] using hnode) hrest
      rw [if_neg (by simpa using hrest), hnone, Option.none_or]
  elsewhere other hother := by
    have hne : other ≠ target := fun heq => hother (heq ▸ List.prefix_rfl)
    rw [h, if_neg hne]
  keeps := h.keeps htarget

theorem Merges.of_makesDirs (hdirs : tree.MakesDirs (· = target) middle)
    (hapart : Apart source target) (hsource : tree.view source = some .dir)
    (h : middle.Merges source target after) : tree.Merges source target after where
  below rest := by
    have hsame : middle.view (source ++ rest) = tree.view (source ++ rest) :=
      hdirs.view_eq fun _ heq => hapart rest [] (heq.trans (List.append_nil _).symm)
    rw [h.below, hsame]
    by_cases hrest : rest = []
    · simp [hrest, hsource]
    · rw [hdirs.view_eq fun _ heq => hrest (by simpa using heq)]
  elsewhere other hother := by
    rw [h.elsewhere other hother]
    exact hdirs.view_eq fun _ heq => hother (heq ▸ List.prefix_rfl)
  keeps := hdirs.keeps.trans h.keeps

theorem MergesEach.nil : tree.MergesEach source target [] tree :=
  ⟨fun _ h => absurd h List.not_mem_nil, fun _ _ => rfl, .refl tree⟩

theorem MergesEach.cons {name : String} {names : List String} (hapart : Apart source target)
    (h : tree.Merges (source ++ [name]) (target ++ [name]) middle) (hname : name ∉ names)
    (h' : middle.MergesEach source target names after) :
    tree.MergesEach source target (name :: names) after where
  below other hother rest := by
    rcases List.mem_cons.mp hother with rfl | hother
    · -- What the first entry has become is not touched by the others.
      have hlater : after.view (target ++ other :: rest) = middle.view (target ++ other :: rest) :=
        h'.elsewhere _ fun later hlater habove => hname (entry_above_iff.mp habove ▸ hlater)
      have hmerged := h.below rest
      rw [List.append_assoc, List.append_assoc] at hmerged
      rw [hlater]
      exact hmerged
    · have hne : other ≠ name := fun heq => hname (heq ▸ hother)
      have hsource : ¬target ++ [name] <+: source ++ other :: rest := fun hprefix =>
        hapart.not_below _ ((List.prefix_append target [name]).trans hprefix)
      have htarget : ¬target ++ [name] <+: target ++ other :: rest := fun hprefix =>
        hne (entry_above_iff.mp hprefix).symm
      rw [h'.below other hother, h.elsewhere _ hsource, h.elsewhere _ htarget]
  elsewhere other hother := by
    obtain ⟨hhead, hrest⟩ := List.forall_mem_cons.mp hother
    rw [h'.elsewhere other hrest, h.elsewhere other hhead]
  keeps := h.keeps.trans h'.keeps

theorem MergesEach.merges {names : List String} (hsource : tree.view source = some .dir)
    (htarget : tree.view target = some .dir)
    (hnames : ∀ name, tree.view (source ++ [name]) ≠ none → name ∈ names)
    (h : tree.MergesEach source target names after) : tree.Merges source target after where
  below rest := by
    cases rest with
    | nil =>
      have hsame : after.view target = tree.view target := by
        refine h.elsewhere target fun name _ hprefix => ?_
        exact absurd hprefix.length_le (by simp)
      simp [hsame, hsource, htarget]
    | cons name rest =>
      by_cases hname : name ∈ names
      · exact h.below name hname rest
      · have hnone : tree.view (source ++ [name]) = none := by
          by_contra hthere
          exact hname (hnames name hthere)
        have hsame : after.view (target ++ name :: rest) = tree.view (target ++ name :: rest) :=
          h.elsewhere _ fun other hother habove => hname (entry_above_iff.mp habove ▸ hother)
        have hgone : tree.view (source ++ name :: rest) = none := by
          have hbelow := view_append_eq_none hnone rest
          rwa [List.append_assoc] at hbelow
        rw [hsame, hgone, Option.none_or]
  elsewhere other hother := by
    refine h.elsewhere other fun name _ hprefix => ?_
    exact hother ((List.prefix_append target [name]).trans hprefix)
  keeps := h.keeps

end Merges

end Tree

namespace Output

section Copy

variable {tree after : Tree} {source target : String} {levels : Nat} {listed : List (String × Bool)}

def copyEntry (levels : Nat) (source target : String) (entry : String × Bool) :
    Stored (FileResult Unit) :=
  if entry.2 then copyTree levels (Path.join source entry.1) (Path.join target entry.1)
  else FileSystem.copyFile (Path.join source entry.1) (Path.join target entry.1)

theorem copyEach_cons_eq_ok {copy : String × Bool → Stored (FileResult Unit)}
    {entry : String × Bool} (h : (copyEach copy (entry :: listed)).run tree = (.ok (), after)) :
    ∃ middle, (copy entry).run tree = (.ok (), middle) ∧
      (copyEach copy listed).run middle = (.ok (), after) :=
  andThen_eq_ok h

theorem exists_copy_of_mem {copy : String × Bool → Stored (FileResult Unit)} {entry : String × Bool}
    (hentry : entry ∈ listed) (h : (copyEach copy listed).run tree = (.ok (), after)) :
    ∃ before middle, (copy entry).run before = (.ok (), middle) := by
  induction listed generalizing tree with
  | nil => exact absurd hentry List.not_mem_nil
  | cons first listed ih =>
    obtain ⟨middle, hfirst, hrest⟩ := copyEach_cons_eq_ok h
    rcases List.mem_cons.mp hentry with rfl | hentry
    · exact ⟨tree, middle, hfirst⟩
    · exact ih hentry hrest

theorem copyTree_eq_ok (h : (copyTree levels source target : Stored _).run tree = (.ok (), after)) :
    ∃ lower middle listed, levels = lower + 1 ∧
      (makeDirAll target : Stored _).run tree = (.ok (), middle) ∧
      middle.list source = .ok listed ∧
      (copyEach (copyEntry lower source target) listed).run middle = (.ok (), after) := by
  cases levels with
  | zero => cases h
  | succ lower =>
    obtain ⟨middle, hmade, h⟩ := andThen_eq_ok h
    have hrun : (FileSystem.list source : Stored _).run middle = (middle.list source, middle) := rfl
    rw [run_bind, hrun] at h
    cases hlisted : middle.list source with
    | error error =>
      rw [hlisted] at h
      cases h
    | ok listed =>
      rw [hlisted] at h
      exact ⟨lower, middle, listed, rfl, hmade, hlisted, h⟩

def CopiesEntries (levels : Nat) : Prop :=
  ∀ (source target : String) (tree after : Tree) (listed : List (String × Bool)),
    tree.IsProper → Tree.Apart (place source) (place target) → tree.Reaches target →
    tree.list source = .ok listed →
    (copyEach (copyEntry levels source target) listed).run tree = (.ok (), after) →
    tree.Merges (place source) (place target) after ∧ after.IsProper

section Entry

variable {name : String} (hname : IsName name) (htree : tree.IsProper)
  (hapart : Tree.Apart (place source) (place target))

include hname htree hapart

theorem merges_copyFile (h : tree.copyFile (Path.join source name) (Path.join target name) =
    .ok after) :
    tree.Merges (place source ++ [name]) (place target ++ [name]) after ∧ after.IsProper := by
  have hsourcePlace := Path.place_join hname source
  have htargetPlace := Path.place_join hname target
  have hne : place (Path.join source name) ≠ place (Path.join target name) := by
    rw [hsourcePlace, htargetPlace]
    exact hapart [name] [name]
  obtain ⟨text, hsource, hsets⟩ := Tree.sets_copyFile h hne
  have hnodir := Tree.view_ne_dir_of_copyFile h
  rw [hsourcePlace] at hsource
  rw [htargetPlace] at hsets hnodir
  exact ⟨hsets.merges hsource (fun heq => nomatch heq) hnodir, Tree.IsProper.copyFile h htree⟩

theorem merges_copyDir (hlower : ∀ lower, levels = lower + 1 → CopiesEntries lower)
    (htarget : tree.Reaches target) (hdir : tree.view (place source ++ [name]) = some .dir)
    (h : (copyTree levels (Path.join source name) (Path.join target name) : Stored _).run tree =
      (.ok (), after)) :
    tree.Merges (place source ++ [name]) (place target ++ [name]) after ∧ after.IsProper := by
  have hbelow := hapart.below [name]
  have hsourcePlace := Path.place_join hname source
  have htargetPlace := Path.place_join hname target
  obtain ⟨lower, middle, listed, rfl, hmade, hlisted, heach⟩ := copyTree_eq_ok h
  -- The target is there already, so its path calls for no directory but the new one.
  have hdirs : tree.MakesDirs (· = place target ++ [name]) middle := by
    refine (makesDirs_makeDirAll hmade).mono ?_
    rintro _ hnone ⟨before, hbefore, rfl⟩
    rw [Path.parts_join hname, List.prefix_concat_iff] at hbefore
    rcases hbefore with rfl | hbefore
    · rw [Path.follow_append, Path.follow_name hname]
      rfl
    · obtain ⟨entries, hlookup⟩ := htarget
      exact absurd hnone (Tree.view_of_lookup hlookup hbefore)
  have hreaches : middle.Reaches (Path.join target name) :=
    reaches_makeDirAll (Path.join_ne_empty hname target) hmade
  have hmerges := hlower lower rfl _ _ middle after listed (isProper_makeDirAll hmade htree)
    (by rwa [hsourcePlace, htargetPlace]) hreaches hlisted heach
  rw [hsourcePlace, htargetPlace] at hmerges
  exact ⟨hmerges.1.of_makesDirs hdirs hbelow hdir, hmerges.2⟩

theorem merges_copyEntry (hlower : ∀ lower, levels = lower + 1 → CopiesEntries lower)
    (htarget : tree.Reaches target) {isDir : Bool}
    (hkind : isDir = true ↔ tree.view (place source ++ [name]) = some .dir)
    (h : (copyEntry levels source target (name, isDir)).run tree = (.ok (), after)) :
    tree.Merges (place source ++ [name]) (place target ++ [name]) after ∧ after.IsProper := by
  cases isDir with
  | false => exact merges_copyFile hname htree hapart (update_eq_ok h)
  | true => exact merges_copyDir hname htree hapart hlower htarget (hkind.mp rfl) h

end Entry

theorem mergesEach_copyEach (hlower : ∀ lower, levels = lower + 1 → CopiesEntries lower)
    (htree : tree.IsProper) (hapart : Tree.Apart (place source) (place target))
    (htarget : tree.Reaches target) (hdistinct : (listed.map Prod.fst).Nodup)
    (hlisted : ∀ entry ∈ listed, IsName entry.1 ∧
      (entry.2 = true ↔ tree.view (place source ++ [entry.1]) = some .dir))
    (h : (copyEach (copyEntry levels source target) listed).run tree = (.ok (), after)) :
    tree.MergesEach (place source) (place target) (listed.map Prod.fst) after ∧
      after.IsProper := by
  induction listed generalizing tree with
  | nil =>
    obtain rfl := (Prod.mk.inj h).2
    exact ⟨.nil, htree⟩
  | cons entry listed ih =>
    obtain ⟨name, isDir⟩ := entry
    obtain ⟨⟨hname, hkind⟩, hrest⟩ := List.forall_mem_cons.mp hlisted
    obtain ⟨hfirst, hdistinct⟩ := List.nodup_cons.mp hdistinct
    obtain ⟨middle, hentry, heach⟩ := copyEach_cons_eq_ok h
    obtain ⟨hmerges, hmiddle⟩ := merges_copyEntry hname htree hapart hlower htarget hkind hentry
    have hsource : ∀ other ∈ listed, IsName other.1 ∧
        (other.2 = true ↔ middle.view (place source ++ [other.1]) = some .dir) := by
      intro other hother
      rw [hmerges.elsewhere _ fun hprefix => hapart.not_below [other.1]
        ((List.prefix_append _ [name]).trans hprefix)]
      exact hrest other hother
    obtain ⟨hmore, hafter⟩ :=
      ih hmiddle (hmerges.keeps.reaches htarget) hdistinct hsource heach
    exact ⟨hmore.cons hapart hmerges hfirst, hafter⟩

theorem copiesEntries_of_lower (hlower : ∀ lower, levels = lower + 1 → CopiesEntries lower) :
    CopiesEntries levels := by
  intro source target tree after listed htree hapart htarget hlist heach
  obtain ⟨entries, hnode, -⟩ := Tree.list_eq_ok hlist
  have hsource : tree.view (place source) = some .dir := Tree.view_eq_dir_iff.mpr ⟨entries, hnode⟩
  have hlisted : ∀ entry ∈ listed, IsName entry.1 ∧
      (entry.2 = true ↔ tree.view (place source ++ [entry.1]) = some .dir) :=
    fun _ hentry => Tree.view_of_mem_list hlist htree hentry
  obtain ⟨hmerges, hafter⟩ := mergesEach_copyEach hlower htree hapart htarget
    (Tree.nodup_list hlist htree) hlisted heach
  exact ⟨hmerges.merges hsource htarget.view_eq fun _ => (Tree.mem_list hlist).mpr, hafter⟩

theorem copiesEntries (levels : Nat) : CopiesEntries levels := by
  induction levels with
  | zero => exact copiesEntries_of_lower fun _ heq => nomatch heq
  | succ levels ih => exact copiesEntries_of_lower fun _ heq => Nat.succ.inj heq ▸ ih

/-- A directory cannot be copied into itself: each level of the copy calls for one more. -/
theorem copyTree_into_itself_ne_ok {rest : List String} (hrest : rest ≠ [])
    (hinside : place target = place source ++ rest) :
    (copyTree levels source target : Stored _).run tree ≠ (.ok (), after) := by
  intro h
  induction levels generalizing source target tree after rest with
  | zero => cases h
  | succ levels ih =>
    obtain ⟨lower, middle, listed, hlevels, hmade, hlist, heach⟩ := copyTree_eq_ok h
    obtain rfl := Nat.succ.inj hlevels
    obtain ⟨name, more, rfl⟩ := List.exists_cons_of_ne_nil hrest
    have hname : IsName name :=
      Path.isName_of_mem_place (show name ∈ place target by simp [hinside])
    have htarget : place target ≠ [] := by simp [hinside]
    have hreaches :=
      (reaches_makeDirAll (Path.ne_empty_of_place_ne_nil htarget) hmade).view_eq
    have hdir : middle.view (place source ++ [name]) = some .dir := by
      rcases eq_or_ne more [] with rfl | hmore
      · rwa [hinside] at hreaches
      · refine Tree.view_above (hreaches ▸ Option.some_ne_none _) ?_ ?_
        · simp [hinside, List.prefix_append_right_inj]
        · simpa [hinside] using Ne.symm hmore
    have hentry := Tree.mem_list_of_view_eq_dir hlist hdir
    -- The entry on the way to the target is copied to a place inside of it again.
    obtain ⟨before, copied, hcopy⟩ := exists_copy_of_mem hentry heach
    have hnext : place (Path.join target name) =
        place (Path.join source name) ++ (more ++ [name]) := by
      rw [Path.place_join hname, Path.place_join hname, hinside]
      simp
    exact ih (List.append_ne_nil_of_right_ne_nil _ (List.cons_ne_nil _ _)) hnext hcopy

end Copy

section CopyAssets

variable {tree : Tree} {source target : String}

def cleared (tree : Tree) (target : String) : FileResult Unit × Tree :=
  if (tree.lookup target).isOk then tree.removeDir target else (.ok (), tree)

inductive CopyEnds (tree : Tree) (source target : String) :
    Except OutputError Unit × Tree → Prop where
  | noAssets (hsource : ((FileSystem.isDir source : Stored Bool).run tree).1 = false) :
      CopyEnds tree source target (.error (.copyAssets source target .noAssets), tree)
  | notCleared {error : FileError} {removed : Tree}
      (hsource : ((FileSystem.isDir source : Stored Bool).run tree).1 = true)
      (hcleared : cleared tree target = (.error error, removed)) :
      CopyEnds tree source target (.error (.copyAssets source target (.system error)), removed)
  | copied {result : FileResult Unit} {removed after : Tree}
      (hsource : ((FileSystem.isDir source : Stored Bool).run tree).1 = true)
      (hcleared : cleared tree target = (.ok (), removed))
      (hcopy : (copyTree maxLevels source target : Stored _).run removed = (result, after)) :
      CopyEnds tree source target
        (result.mapError fun error => .copyAssets source target (.system error), after)

theorem copyEnds_copyAssets (source target : String) (tree : Tree) :
    CopyEnds tree source target ((copyAssets source target : Stored _).run tree) := by
  have hisDir : ((FileSystem.isDir source : Stored Bool).run tree).2 = tree := rfl
  have hexists : (FileSystem.pathExists target : Stored Bool).run tree =
      ((tree.lookup target).isOk, tree) := rfl
  rw [copyAssets, run_bind, hisDir]
  cases hsource : ((FileSystem.isDir source : Stored Bool).run tree).1 with
  | false => exact .noAssets hsource
  | true =>
    simp only [Bool.not_true, Bool.false_eq_true, if_false]
    rw [run_bind, hexists]
    dsimp only
    split
    · rename_i hthere
      have hcleared : cleared tree target = tree.removeDir target := if_pos hthere
      have hremove : (FileSystem.removeDir target : Stored _).run tree = tree.removeDir target :=
        rfl
      rw [run_bind, hremove]
      rcases hremoved : tree.removeDir target with ⟨error | ⟨⟩, removed⟩
      · exact .notCleared hsource (hcleared.trans hremoved)
      · dsimp only
        rw [run_bind]
        rcases hcopy : (copyTree maxLevels source target : Stored _).run removed with
          ⟨error | ⟨⟩, after⟩ <;> exact .copied hsource (hcleared.trans hremoved) hcopy
    · rename_i hlost
      have hcleared : cleared tree target = (.ok (), tree) := if_neg hlost
      rw [pure_bind, run_bind]
      rcases hcopy : (copyTree maxLevels source target : Stored _).run tree with
        ⟨error | ⟨⟩, after⟩ <;> exact .copied hsource hcleared hcopy

theorem run_copyAssets_of_cleared {removed : Tree}
    (hsource : ((FileSystem.isDir source : Stored Bool).run tree).1 = true)
    (hcleared : cleared tree target = (.ok (), removed)) :
    (copyAssets source target : Stored _).run tree =
      (((copyTree maxLevels source target : Stored _).run removed).1.mapError fun error =>
        .copyAssets source target (.system error),
      ((copyTree maxLevels source target : Stored _).run removed).2) := by
  have hends := copyEnds_copyAssets source target tree
  generalize (copyAssets source target : Stored _).run tree = ended at hends ⊢
  cases hends with
  | noAssets hlost => cases hsource.symm.trans hlost
  | notCleared _ hfailed => cases hcleared.symm.trans hfailed
  | copied _ hdone hcopy =>
    obtain rfl := (Prod.mk.inj (hcleared.symm.trans hdone)).2
    rw [hcopy]

end CopyAssets

end Output

end FlowScript
