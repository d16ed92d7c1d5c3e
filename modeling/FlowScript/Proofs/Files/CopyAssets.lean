import FlowScript.Proofs.Files.CopyTree

/-! Copied assets. The target goes first, and so do the assets if they lie there; otherwise the
target holds what the assets held, as long as no other directory is made in either on the way. -/

namespace FlowScript

open FlowScript.Path (IsName follow place parts)
open FlowScript.Tree (Stored)

namespace Tree

/-- The places that a path passes are above its end, or they are directories already and stay when
its end goes. -/
def PassesApart (tree : Tree) (path : String) : Prop :=
  ∀ spot, Output.PassedBy path spot →
    spot <+: place path ∨ tree.view spot = some .dir ∧ ¬place path <+: spot

theorem passesApart_of_up_notMem {path : String} (h : ".." ∉ parts path) (tree : Tree) :
    tree.PassesApart path := by
  have hdown : ∀ more start, ".." ∉ more → start <+: follow start more := by
    intro more
    induction more with
    | nil => exact fun start _ => List.prefix_rfl
    | cons part more ih =>
      intro start hmore
      obtain ⟨hpart, hrest⟩ := List.ne_and_not_mem_of_not_mem_cons hmore
      have hstep : start <+: follow start [part] := by
        by_cases hhere : part = "."
        · simp [follow, hhere]
        · simp [follow, hhere, Ne.symm hpart]
      have hsplit := Path.follow_append start [part] more
      rw [List.singleton_append] at hsplit
      rw [hsplit]
      exact hstep.trans (ih _ hrest)
  rintro _ ⟨before, ⟨later, hparts⟩, rfl⟩
  refine .inl ?_
  rw [place, ← hparts, Path.follow_append]
  refine hdown later _ fun hup => h ?_
  rw [← hparts]
  exact List.mem_append_right before hup

end Tree

namespace Output

section CopyAssets

variable {tree after : Tree} {source target : String}

theorem copyAssets_eq_ok (h : (copyAssets source target : Stored _).run tree = (.ok (), after)) :
    tree.Reaches source ∧ ∃ removed,
      ((tree.lookup target).isOk ∧ tree.removeDir target = (.ok (), removed) ∨
        ¬(tree.lookup target).isOk ∧ removed = tree) ∧
      (copyTree maxLevels source target : Stored _).run removed = (.ok (), after) := by
  have hends := copyEnds_copyAssets source target tree
  rw [h] at hends
  generalize hresult : (Except.ok () : Except OutputError Unit) = result at hends
  cases hends with
  | noAssets _ => cases hresult
  | notCleared _ _ => cases hresult
  | copied hsource hcleared hcopy =>
    rename_i copied removed
    obtain rfl : copied = .ok () := by
      cases copied with
      | error error => cases hresult
      | ok done => rfl
    refine ⟨Tree.reaches_of_isDir hsource, removed, ?_, hcopy⟩
    unfold cleared at hcleared
    split at hcleared
    · rename_i hthere
      exact .inl ⟨hthere, hcleared⟩
    · rename_i hlost
      exact .inr ⟨hlost, (Prod.mk.inj hcleared).2.symm⟩

theorem merges_copyTree {levels : Nat} (htree : tree.IsProper) (hroot : place target ≠ [])
    (hbelow : ¬place target <+: place source)
    (h : (copyTree levels source target : Stored _).run tree = (.ok (), after)) :
    ∃ middle, (makeDirAll target : Stored _).run tree = (.ok (), middle) ∧
      Tree.Apart (place source) (place target) ∧
      middle.Merges (place source) (place target) after := by
  have hinside : ¬place source <+: place target := by
    rintro ⟨rest, hrest⟩
    have hne : rest ≠ [] := by
      rintro rfl
      rw [List.append_nil] at hrest
      exact hbelow (hrest ▸ List.prefix_rfl)
    exact copyTree_into_itself_ne_ok hne hrest.symm h
  have hapart := Tree.apart_of_not_below hinside hbelow
  obtain ⟨lower, middle, listed, -, hmade, hlist, heach⟩ := copyTree_eq_ok h
  have hreaches := reaches_makeDirAll (Path.ne_empty_of_place_ne_nil hroot) hmade
  obtain ⟨hmerges, -⟩ := copiesEntries lower source target middle after listed
    (isProper_makeDirAll hmade htree) hapart hreaches hlist heach
  exact ⟨middle, hmade, hapart, hmerges⟩

theorem view_of_copyAssets (htree : tree.IsProper) (hroot : place target ≠ [])
    (hbelow : ¬place target <+: place source)
    (h : (copyAssets source target : Stored _).run tree = (.ok (), after))
    {rest : List String} {node : Tree.Item} (hnode : tree.view (place source ++ rest) = some node) :
    after.view (place target ++ rest) = some node := by
  obtain ⟨-, removed, hremoved, hcopy⟩ := copyAssets_eq_ok h
  have hkept : removed.IsProper ∧
      ∀ other, ¬place target <+: other → removed.view other = tree.view other := by
    rcases hremoved with ⟨-, hremove⟩ | ⟨-, rfl⟩
    · obtain ⟨hremoves, hproper⟩ := Tree.removes_removeDir htree hremove hroot
      exact ⟨hproper, hremoves.elsewhere⟩
    · exact ⟨htree, fun _ _ => rfl⟩
  obtain ⟨middle, hmade, hapart, hmerges⟩ := merges_copyTree hkept.1 hroot hbelow hcopy
  have hmiddle : middle.view (place source ++ rest) = some node := by
    refine (makesDirs_makeDirAll hmade).view_eq_some ?_
    rw [hkept.2 _ (hapart.not_below rest), hnode]
  rw [hmerges.below, hmiddle, Option.some_or]

section Exact

variable (hpasses : tree.PassesApart target)

include hpasses

theorem removes_of_lookup {removed middle : Tree} (htree : tree.IsProper)
    (hroot : place target ≠ [])
    (hremoved : (tree.lookup target).isOk ∧ tree.removeDir target = (.ok (), removed) ∨
      ¬(tree.lookup target).isOk ∧ removed = tree)
    (hmade : (makeDirAll target : Stored _).run removed = (.ok (), middle)) :
    tree.Removes (place target) removed ∧ removed.IsProper := by
  rcases hremoved with ⟨-, hremove⟩ | ⟨hlost, rfl⟩
  · exact Tree.removes_removeDir htree hremove hroot
  · have hnone : removed.view (place target) = none := by
      by_contra hthere
      -- All that the path passes is there, so nothing had to be made for it to be followed.
      have hsame : ∀ other, middle.view other = removed.view other := by
        intro other
        refine (makesDirs_makeDirAll hmade).view_eq fun hother hpassed => ?_
        rcases hpasses other hpassed with habove | ⟨hdir, -⟩
        · rcases eq_or_ne other (place target) with rfl | hne
          · exact hthere hother
          · have hdir := Tree.view_above hthere habove hne
            exact nomatch hother.symm.trans hdir
        · exact nomatch hother.symm.trans hdir
      have hkeeps : middle.Keeps removed :=
        ⟨fun other => (hsame other ▸ id), fun other => (hsame other ▸ id)⟩
      obtain ⟨entries, hlookup⟩ := hkeeps.reaches
        (reaches_makeDirAll (Path.ne_empty_of_place_ne_nil hroot) hmade)
      exact hlost (by rw [hlookup]; rfl)
    refine ⟨⟨.inl hnone, fun rest hrest => ?_, fun _ _ => rfl⟩, htree⟩
    exact Tree.view_below (by simp [hnone]) hrest

section Cleared

variable {removed middle : Tree} {rest : List String}
  (hremoves : tree.Removes (place target) removed)
  (hmade : (makeDirAll target : Stored _).run removed = (.ok (), middle))

include hremoves hmade

theorem view_made_of_not_above {other : List String} (hother : ¬other <+: place target) :
    middle.view other = removed.view other := by
  refine (makesDirs_makeDirAll hmade).view_eq fun hnone hpassed => ?_
  rcases hpasses other hpassed with habove | ⟨hdir, haside⟩
  · exact hother habove
  · rw [hremoves.elsewhere other haside, hdir] at hnone
    cases hnone

theorem view_made_below_target (hrest : rest ≠ []) :
    middle.view (place target ++ rest) = none := by
  have hnot : ¬place target ++ rest <+: place target := by
    intro hprefix
    have hlength := hprefix.length_le
    rw [List.length_append] at hlength
    exact hrest (List.length_eq_zero_iff.mp (by omega))
  rw [view_made_of_not_above hpasses hremoves hmade hnot, hremoves.below rest hrest]

theorem view_made_source (hapart : Tree.Apart (place source) (place target)) :
    middle.view (place source ++ rest) = tree.view (place source ++ rest) := by
  have hnot : ¬place source ++ rest <+: place target := by
    rintro ⟨more, hmore⟩
    exact hapart (rest ++ more) [] (by simpa using hmore)
  rw [view_made_of_not_above hpasses hremoves hmade hnot,
    hremoves.elsewhere _ (hapart.not_below rest)]

variable {listed : List (String × Bool)} (hlist : middle.list source = .ok listed)

include hlist

theorem listed_eq_nil_of_place_eq (hsame : place source = place target) : listed = [] := by
  refine List.eq_nil_iff_forall_not_mem.mpr fun entry hentry => ?_
  have hthere := (Tree.mem_list hlist).mp (List.mem_map_of_mem hentry)
  rw [hsame] at hthere
  exact hthere (view_made_below_target hpasses hremoves hmade (List.cons_ne_nil _ _))

theorem not_below_of_list (hne : place source ≠ place target) :
    ¬place target <+: place source := by
  rintro ⟨more, hmore⟩
  have hbelow : more ≠ [] := by
    rintro rfl
    exact hne (by simpa using hmore.symm)
  obtain ⟨entries, hnode, -⟩ := Tree.list_eq_ok hlist
  have hgone := view_made_below_target hpasses hremoves hmade hbelow
  rw [hmore, Tree.view, hnode] at hgone
  cases hgone

end Cleared

/-- The target holds exactly what the assets held, unless it is their own place: then it is left
empty. -/
theorem view_copyAssets_eq (htree : tree.IsProper) (hroot : place target ≠ [])
    (h : (copyAssets source target : Stored _).run tree = (.ok (), after)) (rest : List String) :
    after.view (place target ++ rest) =
      if place source = place target ∧ rest ≠ [] then none
      else tree.view (place source ++ rest) := by
  obtain ⟨hreaches, removed, hremoved, hcopy⟩ := copyAssets_eq_ok h
  obtain ⟨lower, middle, listed, -, hmade, hlist, heach⟩ := copyTree_eq_ok hcopy
  obtain ⟨hremoves, hproper⟩ := removes_of_lookup hpasses htree hroot hremoved hmade
  have htarget : middle.view (place target) = some .dir :=
    (reaches_makeDirAll (Path.ne_empty_of_place_ne_nil hroot) hmade).view_eq
  have hsource : tree.view (place source) = some .dir := hreaches.view_eq
  -- The source is listed behind the removal: at the target nothing is left, inside of it the
  -- listing fails, and above it the copy goes into itself. Elsewhere the removal does not matter.
  by_cases hsame : place source = place target
  · obtain rfl : listed = [] := listed_eq_nil_of_place_eq hpasses hremoves hmade hlist hsame
    obtain rfl : middle = after := (Prod.mk.inj heach).2
    by_cases hrest : rest = []
    · simp [hrest, htarget, hsource]
    · rw [if_pos ⟨hsame, hrest⟩, view_made_below_target hpasses hremoves hmade hrest]
  · have hbelow := not_below_of_list hpasses hremoves hmade hlist hsame
    obtain ⟨again, hagain, hapart, hmerges⟩ := merges_copyTree hproper hroot hbelow hcopy
    obtain rfl : middle = again := (Prod.mk.inj (hmade.symm.trans hagain)).2
    rw [if_neg fun hboth => hsame hboth.1, hmerges.below,
      view_made_source hpasses hremoves hmade hapart]
    by_cases hrest : rest = []
    · simp [hrest, hsource]
    · rw [view_made_below_target hpasses hremoves hmade hrest, Option.or_none]

end Exact

end CopyAssets

end Output

end FlowScript
