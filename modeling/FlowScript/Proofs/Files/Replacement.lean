import FlowScript.Proofs.Files.CopyAssets
import FlowScript.Proofs.Files.Confinement
import FlowScript.Proofs.Files.Progress

/-! Assets that are copied to a place apart from them. If a file is in the way, nothing changes;
otherwise the target becomes what the assets are, as long as all paths keep to the limits. -/

namespace FlowScript

open FlowScript.Path (IsName IsPlain parts place)
open FlowScript.Tree (Stored)

def Path.joinAll (path : String) (names : List String) : String :=
  names.foldl join path

namespace Tree

variable {tree other : Tree} {source target : String}

/-- The paths of all that is copied keep to the limits of the system, and so do those of the
copies. -/
def Fits (tree : Tree) (source target : String) : Prop :=
  ∀ rest, tree.view (place source ++ rest) ≠ none →
    checkPath (Path.joinAll source rest) = .ok () ∧ checkPath (Path.joinAll target rest) = .ok ()

theorem Fits.congr (h : tree.Fits source target)
    (hsame : ∀ rest, other.view (place source ++ rest) = tree.view (place source ++ rest)) :
    other.Fits source target :=
  fun rest hrest => h rest (hsame rest ▸ hrest)

theorem fits_congr
    (h : ∀ rest, other.view (place source ++ rest) = tree.view (place source ++ rest)) :
    other.Fits source target ↔ tree.Fits source target :=
  ⟨fun hfits => hfits.congr fun rest => (h rest).symm, fun hfits => hfits.congr h⟩

theorem fits_iff (htree : tree.IsProper) (hsource : tree.view (place source) ≠ none) :
    tree.Fits source target ↔ (checkPath source = .ok () ∧ checkPath target = .ok ()) ∧
      ∀ name, tree.view (place source ++ [name]) ≠ none →
        tree.Fits (Path.join source name) (Path.join target name) := by
  have hsplit (name : String) (hname : IsName name) (rest : List String) :
      place (Path.join source name) ++ rest = place source ++ name :: rest := by
    rw [Path.place_join hname, List.append_assoc]
    rfl
  have hisName {name : String} {rest : List String}
      (hview : tree.view (place source ++ name :: rest) ≠ none) : IsName name :=
    (htree.names_of_view hview name (by simp)).1
  constructor
  · intro h
    refine ⟨h [] (by rwa [List.append_nil]), fun name hname rest hrest => ?_⟩
    rw [hsplit name (hisName hname)] at hrest
    exact h (name :: rest) hrest
  · rintro ⟨hhere, hbelow⟩ rest hrest
    cases rest with
    | nil => exact hhere
    | cons name rest =>
      have hname := hisName hrest
      have hthere : tree.view (place source ++ [name]) ≠ none := by
        intro hnone
        have hbelow := view_append_eq_none hnone rest
        rw [List.append_assoc] at hbelow
        exact hrest hbelow
      exact hbelow name hthere rest (by rwa [hsplit name hname])

theorem fits_iff_of_file (htree : tree.IsProper) {text : String}
    (hsource : tree.view (place source) = some (.file text)) :
    tree.Fits source target ↔ checkPath source = .ok () ∧ checkPath target = .ok () := by
  rw [fits_iff htree (by simp [hsource])]
  refine and_iff_left fun name hname => absurd (view_below ?_ (List.cons_ne_nil name [])) hname
  simp [hsource]

/-- An entry stands in the source, as what it is listed as, and nothing in its place in the
target. -/
structure Awaits (tree : Tree) (source target : String) (entry : String × Bool) : Prop where
  there : tree.view (place source ++ [entry.1]) ≠ none
  kind : entry.2 = true ↔ tree.view (place source ++ [entry.1]) = some .dir
  vacant : tree.view (place target ++ [entry.1]) = none

/-- Nothing but its paths can keep a directory from being copied: no file is in the way, and the
target is missing or empty. -/
structure Ready (tree : Tree) (source target : String) : Prop where
  proper : tree.IsProper
  assets : tree.view (place source) = some .dir
  isOpen : tree.IsOpen (place target)
  limits : ∀ name ∈ place target, name.utf8ByteSize ≤ nameLimit
  vacant : ∀ rest ≠ [], tree.view (place target ++ rest) = none

/-- The assets are a directory, and no file is in the way of the target. -/
structure AllowsCopy (tree : Tree) (source target : List String) : Prop where
  assets : tree.view source = some .dir
  isOpen : tree.IsOpen target

theorem AllowsCopy.ready {removed : Tree} (h : tree.AllowsCopy (place source) (place target))
    (hlimits : ∀ name ∈ place target, name.utf8ByteSize ≤ nameLimit)
    (hapart : Apart (place source) (place target)) (hremoves : tree.Removes (place target) removed)
    (hremoved : removed.IsProper) : removed.Ready source target := by
  refine ⟨hremoved, ?_, h.isOpen.of_removes hremoves, hlimits, hremoves.below⟩
  have hkept := hremoves.elsewhere _ (hapart.not_below [])
  rw [List.append_nil] at hkept
  rw [hkept, h.assets]

theorem Awaits.ready {name : String} (h : tree.Awaits source target (name, true))
    (htree : tree.IsProper) (hdir : tree.view (place target) = some .dir) :
    tree.Ready (Path.join source name) (Path.join target name) := by
  obtain ⟨hname, hlimit⟩ := htree.names_of_view h.there name (by simp)
  refine ⟨htree, ?_, ?_, ?_, ?_⟩
  · rw [Path.place_join hname]
    exact h.kind.mp rfl
  · rw [Path.place_join hname]
    exact isOpen_of_missing hdir h.vacant List.prefix_rfl
  · rw [Path.place_join hname]
    refine List.forall_mem_append.mpr ⟨fun part hpart => ?_, List.forall_mem_singleton.mpr hlimit⟩
    exact (htree.names_of_view (by simp [hdir]) part hpart).2
  · intro rest _
    rw [Path.place_join hname]
    exact view_append_eq_none h.vacant rest

end Tree

namespace Output

section Copy

variable {tree after : Tree} {source target : String} {levels : Nat} {listed : List (String × Bool)}

/-- Nothing but its paths keeps a directory from being copied. -/
def CopiesFitting (levels : Nat) : Prop :=
  ∀ (source target : String) (tree : Tree), IsPlain source → IsPlain target →
    Tree.Apart (place source) (place target) → tree.Ready source target →
    Tree.pathLimit < levels + (parts target).length →
    (((copyTree levels source target : Stored _).run tree).1 = .ok () ↔ tree.Fits source target)

theorem run_update_isOk_iff {f : Tree → FileResult Tree} :
    ((Tree.update f).run tree).1 = .ok () ↔ ∃ after, f tree = .ok after := by
  rw [run_update]
  cases f tree with
  | ok after => simp
  | error error => simp

variable (hsource : IsPlain source) (htarget : IsPlain target)
  (hapart : Tree.Apart (place source) (place target))
  (hlevels : Tree.pathLimit < levels + 1 + (parts target).length)

include hsource htarget hapart hlevels

theorem copyEntry_isOk_iff (hlower : CopiesFitting levels) (htree : tree.IsProper)
    (hdir : tree.view (place target) = some .dir) {name : String} {isDir : Bool}
    (hentry : tree.Awaits source target (name, isDir)) :
    ((copyEntry levels source target (name, isDir)).run tree).1 = .ok () ↔
      tree.Fits (Path.join source name) (Path.join target name) := by
  obtain ⟨hname, -⟩ := htree.names_of_view hentry.there name (by simp)
  cases isDir with
  | true =>
    refine hlower _ _ tree (hsource.join hname) (htarget.join hname) ?_ (hentry.ready htree hdir) ?_
    · rw [Path.place_join hname, Path.place_join hname]
      exact hapart.below [name]
    · rw [Path.parts_join hname, List.length_append, List.length_singleton]
      omega
  | false =>
    obtain ⟨text, hfile⟩ : ∃ text, tree.view (place source ++ [name]) = some (.file text) := by
      cases hview : tree.view (place source ++ [name]) with
      | none => exact absurd hview hentry.there
      | some node =>
        cases node with
        | dir => exact nomatch hentry.kind.mpr hview
        | file text => exact ⟨text, rfl⟩
    have hjoined : tree.view (place (Path.join source name)) = some (.file text) := by
      rwa [Path.place_join hname]
    rw [Tree.fits_iff_of_file htree hjoined]
    exact run_update_isOk_iff.trans
      (Tree.copyFile_isOk_iff hname htree hsource htarget hfile hdir hentry.vacant)

theorem copyEach_isOk_iff (hlower : CopiesFitting levels) (htree : tree.IsProper)
    (hreaches : tree.Reaches target) (hnames : (listed.map Prod.fst).Nodup)
    (hlisted : ∀ entry ∈ listed, tree.Awaits source target entry) :
    ((copyEach (copyEntry levels source target) listed).run tree).1 = .ok () ↔
      ∀ entry ∈ listed, tree.Fits (Path.join source entry.1) (Path.join target entry.1) := by
  induction listed generalizing tree with
  | nil => exact iff_of_true rfl (List.forall_mem_nil _)
  | cons entry listed ih =>
    obtain ⟨name, isDir⟩ := entry
    obtain ⟨hentry, hrest⟩ := List.forall_mem_cons.mp hlisted
    obtain ⟨hfirst, hnames⟩ := List.nodup_cons.mp hnames
    have hok :=
      copyEntry_isOk_iff hsource htarget hapart hlevels hlower htree hreaches.view_eq hentry
    rw [List.forall_mem_cons, ← hok, copyEach, run_bind]
    rcases hrun : (copyEntry levels source target (name, isDir)).run tree with
      ⟨error | ⟨⟩, middle⟩
    · simp
    · obtain ⟨hname, -⟩ := htree.names_of_view hentry.there name (by simp)
      obtain ⟨hmerges, hmiddle⟩ := merges_copyEntry hname htree hapart
        (fun lower _ => copiesEntries lower) hreaches hentry.kind hrun
      have hkept (rest : List String) :
          middle.view (place source ++ rest) = tree.view (place source ++ rest) :=
        hmerges.elsewhere _ fun hprefix =>
          hapart.not_below rest ((List.prefix_append _ [name]).trans hprefix)
      have hstill : ∀ entry ∈ listed, middle.Awaits source target entry := by
        intro other hother
        have hne : name ≠ other.1 := fun heq =>
          hfirst (List.mem_map.mpr ⟨other, hother, heq.symm⟩)
        obtain ⟨hthere, hkind, hvacant⟩ := hrest other hother
        have hbeside : middle.view (place target ++ [other.1]) = none :=
          (hmerges.elsewhere _ fun hprefix => hne (Tree.entry_above_iff.mp hprefix)).trans hvacant
        exact ⟨hkept _ ▸ hthere, hkept _ ▸ hkind, hbeside⟩
      have hmore := ih hmiddle (hmerges.keeps.reaches hreaches) hnames hstill
      refine (hmore.trans (forall₂_congr fun other hother => ?_)).trans (and_iff_right rfl).symm
      refine Tree.fits_congr fun rest => ?_
      have hisName := (htree.names_of_view (hrest other hother).there other.1 (by simp)).1
      rw [Path.place_join hisName, List.append_assoc]
      exact hkept _

theorem copyListed_isOk_iff (hlower : CopiesFitting levels) (htree : tree.IsProper)
    (hreaches : tree.Reaches target) (hassets : tree.view (place source) = some .dir)
    (hvacant : ∀ rest ≠ [], tree.view (place target ++ rest) = none) :
    (StateT.run (do
      match ← (FileSystem.list source : Stored _) with
      | .error error => return .error error
      | .ok entries => copyEach (copyEntry levels source target) entries :
        Stored (FileResult Unit)) tree).1 = .ok () ↔ tree.Fits source target := by
  have hrun : (FileSystem.list source : Stored _).run tree = (tree.list source, tree) := rfl
  have hsourceCheck := Tree.reaches_iff htree hsource
  rw [← Tree.exists_list_iff, and_iff_left hassets] at hsourceCheck
  rw [Tree.fits_iff htree (by simp [hassets]), run_bind, hrun]
  cases hlist : tree.list source with
  | error error =>
    rw [hlist] at hsourceCheck
    refine iff_of_false (fun h => nomatch h) fun hfits => ?_
    exact nomatch hsourceCheck.mpr hfits.1.1
  | ok listed =>
    have hpaths : Tree.checkPath source = .ok () ∧ Tree.checkPath target = .ok () :=
      ⟨hsourceCheck.mp ⟨listed, hlist⟩, ((Tree.reaches_iff htree htarget).mp hreaches).1⟩
    have hlisted : ∀ entry ∈ listed, tree.Awaits source target entry := fun entry hentry =>
      ⟨(Tree.mem_list hlist).mp (List.mem_map_of_mem hentry),
        (Tree.view_of_mem_list hlist htree hentry).2, hvacant _ (List.cons_ne_nil _ _)⟩
    have heach := copyEach_isOk_iff hsource htarget hapart hlevels hlower htree hreaches
      (Tree.nodup_list hlist htree) hlisted
    refine heach.trans (Iff.trans ?_ (and_iff_right hpaths).symm)
    constructor
    · intro h name hname
      obtain ⟨entry, hentry, rfl⟩ := List.mem_map.mp ((Tree.mem_list hlist).mpr hname)
      exact h entry hentry
    · exact fun h entry hentry => h entry.1 (hlisted entry hentry).there

theorem copyTree_isOk_iff (hlower : CopiesFitting levels) (hready : tree.Ready source target) :
    ((copyTree (levels + 1) source target : Stored _).run tree).1 = .ok () ↔
      tree.Fits source target := by
  have hmakes := makeDirAll_eq_ok hready.proper htarget
  rw [copyTree, run_bind]
  rcases hmade : (makeDirAll target : Stored _).run tree with ⟨error | ⟨⟩, middle⟩
  · refine iff_of_false (fun h => nomatch h) fun hfits => ?_
    have hcheck := (hfits [] (by simp [hready.assets])).2
    have hok := hmakes hcheck (htarget.place_eq ▸ hready.limits) hready.isOpen
    rw [hmade] at hok
    cases hok
  · -- Directories are made at and above the target only.
    have hbeside {spot : List String} (hspot : ¬spot <+: place target) :
        middle.view spot = tree.view spot :=
      (makesDirs_makeDirAll hmade).view_eq fun _ hpassed =>
        hspot (prefix_of_passedBy htarget hpassed)
    have hkept (rest : List String) :
        middle.view (place source ++ rest) = tree.view (place source ++ rest) := by
      refine hbeside ?_
      rintro ⟨more, hmore⟩
      exact hapart (rest ++ more) [] (by simpa using hmore)
    have hassets : middle.view (place source) = some .dir := by
      have hsame := hkept []
      rwa [List.append_nil, hready.assets] at hsame
    have hvacant : ∀ rest ≠ [], middle.view (place target ++ rest) = none := by
      intro rest hrest
      refine (hbeside fun hprefix => hrest ?_).trans (hready.vacant rest hrest)
      have hlength := hprefix.length_le
      rw [List.length_append] at hlength
      exact List.length_eq_zero_iff.mp (by omega)
    rw [← Tree.fits_congr hkept]
    exact copyListed_isOk_iff hsource htarget hapart hlevels hlower
      (isProper_makeDirAll hmade hready.proper) (reaches_makeDirAll htarget.ne_empty hmade)
      hassets hvacant

omit hsource htarget hapart hlevels in
theorem copiesFitting (levels : Nat) : CopiesFitting levels := by
  induction levels with
  | zero =>
    intro source target tree hsource htarget hapart hready hlevels
    -- A path with this many parts is too long.
    refine iff_of_false (fun h => nomatch h) fun hfits => ?_
    have hlength := Tree.length_parts_lt (hfits [] (by simp [hready.assets])).2
    rw [Path.joinAll, List.foldl_nil] at hlength
    omega
  | succ levels ih =>
    intro source target tree hsource htarget hapart hready hlevels
    exact copyTree_isOk_iff hsource htarget hapart hlevels ih hready

end Copy

section CopyAssets

variable {tree after : Tree} {source target : String} {result : Except OutputError Unit}
  (htree : tree.IsProper) (hsource : IsPlain source) (htarget : IsPlain target)

include htree hsource htarget

theorem copyAssets_refused (h : ¬(tree.AllowsCopy (place source) (place target) ∧
      Tree.checkPath source = .ok () ∧ Tree.checkPath target = .ok ())) :
    ∃ error, (copyAssets source target : Stored _).run tree = (.error error, tree) := by
  have hends := copyEnds_copyAssets source target tree
  generalize (copyAssets source target : Stored _).run tree = ended at hends ⊢
  have hblocked (hdir : ((FileSystem.isDir source : Stored Bool).run tree).1 = true) :
      ¬(tree.IsOpen (place target) ∧ Tree.checkPath target = .ok ()) := by
    obtain ⟨hcheck, hassets⟩ := (Tree.isDir_eq_true_iff htree hsource).mp hdir
    exact fun ⟨hopen, htargetCheck⟩ => h ⟨⟨hassets, hopen⟩, hcheck, htargetCheck⟩
  cases hends with
  | noAssets _ => exact ⟨_, rfl⟩
  | notCleared hdir hcleared =>
    have hsame := cleared_eq_self htarget (hblocked hdir)
    rw [hcleared] at hsame
    exact ⟨_, congrArg _ hsame⟩
  | copied hdir hcleared hcopy =>
    have hsame := cleared_eq_self htarget (hblocked hdir)
    rw [hcleared] at hsame
    obtain rfl : _ = tree := hsame
    obtain ⟨error, hmade⟩ := makeDirAll_eq_error htree htarget (hblocked hdir)
    rw [maxLevels, copyTree, run_bind, hmade] at hcopy
    obtain ⟨rfl, rfl⟩ := Prod.mk.inj hcopy
    exact ⟨_, rfl⟩

theorem exists_cleared (hallows : tree.AllowsCopy (place source) (place target))
    (hsourceCheck : Tree.checkPath source = .ok ())
    (htargetCheck : Tree.checkPath target = .ok ()) :
    ∃ removed, tree.Removes (place target) removed ∧ removed.IsProper ∧
      (copyAssets source target : Stored _).run tree =
        (((copyTree maxLevels source target : Stored _).run removed).1.mapError fun error =>
          .copyAssets source target (.system error),
        ((copyTree maxLevels source target : Stored _).run removed).2) := by
  have hdir := (Tree.isDir_eq_true_iff htree hsource).mpr ⟨hsourceCheck, hallows.assets⟩
  obtain ⟨removed, hcleared, hremoves, hproper⟩ :=
    cleared_eq_ok htarget htree htargetCheck hallows.isOpen
  exact ⟨removed, hremoves, hproper, run_copyAssets_of_cleared hdir hcleared⟩

theorem copyAssets_of_longName {dir : List String} {name : String}
    (hallows : tree.AllowsCopy (place source) (place target))
    (hsourceCheck : Tree.checkPath source = .ok ()) (htargetCheck : Tree.checkPath target = .ok ())
    (hparts : parts target = dir ++ [name])
    (hlimits : ∀ part ∈ dir, part.utf8ByteSize ≤ Tree.nameLimit)
    (hlong : Tree.nameLimit < name.utf8ByteSize) :
    ∃ error after, (copyAssets source target : Stored _).run tree = (.error error, after) ∧
      after.view dir = some .dir := by
  obtain ⟨removed, hremoves, hproper, hrun⟩ :=
    exists_cleared htree hsource htarget hallows hsourceCheck htargetCheck
  have hopen : removed.IsOpen dir := fun above habove =>
    hallows.isOpen.of_removes hremoves above
      (habove.trans (htarget.place_eq ▸ hparts ▸ List.prefix_append dir [name]))
  obtain ⟨error, middle, hmade, hview⟩ :=
    makeDirAll_of_longName hproper htarget htargetCheck hparts hlimits hlong hopen
  have hcopy : (copyTree maxLevels source target : Stored _).run removed =
      (.error error, middle) := by
    rw [maxLevels, copyTree, run_bind, hmade]
    rfl
  rw [hrun, hcopy]
  exact ⟨_, _, rfl, hview⟩

variable (hapart : Tree.Apart (place source) (place target))

include hapart

theorem copyAssets_isOk_iff : ((copyAssets source target : Stored _).run tree).1 = .ok () ↔
    tree.AllowsCopy (place source) (place target) ∧
      (∀ name ∈ place target, name.utf8ByteSize ≤ Tree.nameLimit) ∧ tree.Fits source target := by
  have hlevels : Tree.pathLimit < maxLevels + (parts target).length :=
    Nat.lt_add_of_pos_right (List.length_pos_iff.mpr htarget.parts_ne_nil)
  have hcopies {removed : Tree} (hready : removed.Ready source target)
      (hremoves : tree.Removes (place target) removed) :
      ((copyTree maxLevels source target : Stored _).run removed).1 = .ok () ↔
        tree.Fits source target :=
    (copiesFitting maxLevels source target removed hsource htarget hapart hready hlevels).trans
      (Tree.fits_congr fun rest => hremoves.elsewhere _ (hapart.not_below rest))
  constructor
  · intro hok
    have hallowed : tree.AllowsCopy (place source) (place target) ∧
        Tree.checkPath source = .ok () ∧ Tree.checkPath target = .ok () := by
      by_contra h
      obtain ⟨error, hrefused⟩ := copyAssets_refused htree hsource htarget h
      rw [hrefused] at hok
      cases hok
    rcases hrun : (copyAssets source target : Stored _).run tree with ⟨result, after⟩
    rw [hrun] at hok
    obtain rfl : result = .ok () := hok
    obtain ⟨-, removed, hremoved, hcopy⟩ := copyAssets_eq_ok hrun
    obtain ⟨lower, middle, listed, -, hmade, -, -⟩ := copyTree_eq_ok hcopy
    have hpasses := Tree.passesApart_of_up_notMem htarget.no_up tree
    obtain ⟨hremoves, hproper⟩ :=
      removes_of_lookup hpasses htree htarget.place_ne_nil hremoved hmade
    have hthere := (reaches_makeDirAll htarget.ne_empty hmade).view_eq
    have hlimits : ∀ name ∈ place target, name.utf8ByteSize ≤ Tree.nameLimit := fun name hname =>
      ((isProper_makeDirAll hmade hproper).names_of_view (by simp [hthere]) name hname).2
    refine ⟨hallowed.1, hlimits, ?_⟩
    exact (hcopies (hallowed.1.ready hlimits hapart hremoves hproper) hremoves).mp (by rw [hcopy])
  · rintro ⟨hallows, hlimits, hfits⟩
    obtain ⟨hsourceCheck, htargetCheck⟩ := hfits [] (by simp [hallows.assets])
    obtain ⟨removed, hremoves, hproper, hrun⟩ :=
      exists_cleared htree hsource htarget hallows hsourceCheck htargetCheck
    have hcopied := (hcopies (hallows.ready hlimits hapart hremoves hproper) hremoves).mpr hfits
    rw [hrun, hcopied]
    rfl

omit hapart hsource in
theorem view_copyAssets_elsewhere (h : (copyAssets source target : Stored _).run tree =
      (result, after)) {spot : List String} (hspot : ¬place target <+: spot) :
    after.view spot = tree.view spot ∨
      tree.view spot = none ∧ after.view spot = some .dir ∧ spot <+: place target := by
  have hadmits : Admits (place target <+: ·) (· <+: place target) target :=
    ⟨fun rest => List.prefix_append _ rest,
      fun _ hpassed => .inr (prefix_of_passedBy htarget hpassed)⟩
  have hconfined : tree.Confined (place target <+: ·) (· <+: place target)
      ((copyAssets source target : Stored _).run tree).2 :=
    confined_copyAssets htree htarget.place_ne_nil hadmits
  rw [h] at hconfined
  exact hconfined.elsewhere spot hspot

end CopyAssets

/-- Assets that are copied to a place apart from them either are refused, and nothing changes, or
the target is made exactly what they are, unless a path on the way does not keep to the limits of
the system. The assets stay, and so does all else but for directories made above the target. -/
theorem copyAssets_replaces {tree after : Tree} {source target : String}
    {result : Except OutputError Unit} (htree : tree.IsProper) (hsource : IsPlain source)
    (htarget : IsPlain target) (hbelow : ¬place source <+: place target)
    (habove : ¬place target <+: place source)
    (h : (copyAssets source target : Stored _).run tree = (result, after)) :
    (result = .ok () ↔ tree.AllowsCopy (place source) (place target) ∧
        (∀ name ∈ place target, name.utf8ByteSize ≤ Tree.nameLimit) ∧ tree.Fits source target) ∧
      (¬(tree.AllowsCopy (place source) (place target) ∧
          Tree.checkPath source = .ok () ∧ Tree.checkPath target = .ok ()) → after = tree) ∧
      (result = .ok () →
        ∀ rest, after.view (place target ++ rest) = tree.view (place source ++ rest)) ∧
      (∀ rest, after.view (place source ++ rest) = tree.view (place source ++ rest)) ∧
      ∀ spot, ¬place target <+: spot → after.view spot = tree.view spot ∨
        tree.view spot = none ∧ after.view spot = some .dir ∧ spot <+: place target := by
  have hapart := Tree.apart_of_not_below hbelow habove
  have helsewhere (spot : List String) (hspot : ¬place target <+: spot) :=
    view_copyAssets_elsewhere htree htarget h hspot
  refine ⟨?_, ?_, ?_, ?_, helsewhere⟩
  · rw [← copyAssets_isOk_iff htree hsource htarget hapart, h]
  · intro hrefused
    obtain ⟨error, hrun⟩ := copyAssets_refused htree hsource htarget hrefused
    exact (Prod.mk.inj (h.symm.trans hrun)).2
  · rintro rfl rest
    have hne : place source ≠ place target := fun heq => hbelow (heq ▸ List.prefix_rfl)
    have hpasses := Tree.passesApart_of_up_notMem htarget.no_up tree
    rw [view_copyAssets_eq hpasses htree htarget.place_ne_nil h, if_neg fun hboth => hne hboth.1]
  · intro rest
    rcases helsewhere _ (hapart.not_below rest) with hsame | ⟨-, -, hprefix⟩
    · exact hsame
    · exact absurd ((List.prefix_append _ rest).trans hprefix) hbelow

def staleTree : Tree :=
  .dir [("as", .dir [("e", .dir []), ("k", .file "1")]), ("out", .dir [("old", .file "0")])]

theorem isProper_staleTree : staleTree.IsProper := by
  have hassets : (Tree.dir [("e", .dir []), ("k", .file "1")]).IsProper :=
    .dir (by decide) (by decide) (List.forall_mem_cons.mpr
      ⟨Tree.isProper_empty, List.forall_mem_singleton.mpr (.file "1")⟩)
  have hout : (Tree.dir [("old", .file "0")]).IsProper :=
    .dir (by decide) (by decide) (List.forall_mem_singleton.mpr (.file "0"))
  exact .dir (by decide) (by decide)
    (List.forall_mem_cons.mpr ⟨hassets, List.forall_mem_singleton.mpr hout⟩)

theorem copyAssets_staleTree : ∃ after,
    (copyAssets "as" "out" : Stored _).run staleTree = (.ok (), after) ∧
      after.view ["out", "old"] = none ∧ after.view ["out", "e"] = some .dir ∧
      after.view ["out", "k"] = some (.file "1") := by
  have hok : ((copyAssets "as" "out" : Stored _).run staleTree).1.isOk = true := by decide +kernel
  rcases hrun : (copyAssets "as" "out" : Stored _).run staleTree with ⟨error | ⟨⟩, after⟩
  · rw [hrun] at hok
    cases hok
  · have hexact := (copyAssets_replaces isProper_staleTree (by decide) (by decide) (by decide)
      (by decide) hrun).2.2.1 rfl
    exact ⟨after, rfl, hexact ["old"], hexact ["e"], hexact ["k"]⟩

def longName : String :=
  String.ofList (List.replicate (Tree.nameLimit + 1) 'n')

theorem utf8ByteSize_longName : longName.utf8ByteSize = Tree.nameLimit + 1 := by
  have hlength (n : Nat) : String.utf8Len (List.replicate n 'n') = n := by
    induction n with
    | zero => rfl
    | succ n ih =>
      rw [List.replicate_succ, String.utf8Len_cons, ih]
      rfl
  rw [longName, String.utf8ByteSize_ofList, hlength]

theorem isName_longName : IsName longName := by
  have hne {name : String} (h : name.utf8ByteSize ≤ Tree.nameLimit) : longName ≠ name := by
    rintro rfl
    rw [utf8ByteSize_longName] at h
    exact Nat.not_succ_le_self _ h
  refine ⟨hne (by decide), fun hslash => ?_, hne (by decide), hne (by decide)⟩
  rw [longName, String.toList_ofList] at hslash
  exact absurd (List.eq_of_mem_replicate hslash) (by decide)

theorem checkPath_join_longName : Tree.checkPath (Path.join "p" longName) = .ok () := by
  have htext : Path.join "p" longName = "p" ++ "/" ++ longName := by
    rw [Path.join, Path.isAbsolute_of_isName isName_longName, if_neg (by decide),
      if_neg (by decide)]
  refine Tree.checkPath_eq_ok_iff.mpr ⟨?_, Path.join_ne_empty isName_longName "p", ?_⟩
  · rw [htext, String.toList_append, longName, String.toList_ofList, List.mem_append]
    rintro (hfront | hname)
    · exact absurd hfront (by decide)
    · exact absurd (List.eq_of_mem_replicate hname) (by decide)
  · rw [htext, String.utf8ByteSize_append, utf8ByteSize_longName]
    decide

theorem copyAssets_longName :
    staleTree.IsProper ∧ IsPlain "as" ∧ IsPlain (Path.join "p" longName) ∧
      ¬place "as" <+: place (Path.join "p" longName) ∧
      ¬place (Path.join "p" longName) <+: place "as" ∧
      staleTree.AllowsCopy (place "as") (place (Path.join "p" longName)) ∧
      ∃ error after,
        (copyAssets "as" (Path.join "p" longName) : Stored _).run staleTree =
          (.error error, after) ∧
        staleTree.view ["p"] = none ∧ after.view ["p"] = some .dir := by
  have hsource : IsPlain "as" := by decide
  have htarget : IsPlain (Path.join "p" longName) :=
    IsPlain.join (by decide) isName_longName
  have hparts : parts (Path.join "p" longName) = ["p"] ++ [longName] :=
    Path.parts_join isName_longName "p"
  have hplace : place (Path.join "p" longName) = ["p", longName] := htarget.place_eq.trans hparts
  have hfirst : [] ++ ["p"] <+: ["p", longName] := ⟨[longName], rfl⟩
  have hopen : staleTree.IsOpen ["p", longName] :=
    Tree.isOpen_of_missing (by decide) (by decide) hfirst
  have hallows : staleTree.AllowsCopy (place "as") (place (Path.join "p" longName)) :=
    ⟨by decide, hplace ▸ hopen⟩
  obtain ⟨error, after, hrun, hmade⟩ := copyAssets_of_longName isProper_staleTree hsource htarget
    hallows (by decide) checkPath_join_longName hparts (by decide)
    (utf8ByteSize_longName ▸ Nat.lt_succ_self _)
  refine ⟨isProper_staleTree, hsource, htarget, ?_, ?_, hallows, error, after, hrun, by decide,
    hmade⟩
  · rw [hplace]
    exact fun hprefix => absurd (List.cons_prefix_cons.mp hprefix).1 (by decide)
  · rw [hplace]
    exact fun hprefix => absurd hprefix.length_le (by decide)

end Output

end FlowScript
