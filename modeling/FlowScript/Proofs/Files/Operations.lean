import FlowScript.Proofs.Files.View

/-! The operations of a tree, told by what can be seen at its places. A path that can be followed
leads to its place. -/

namespace FlowScript

theorem FileResult.bind_eq_ok_iff {α β : Type} {result : FileResult α} {f : α → FileResult β}
    {b : β} : (result >>= f) = .ok b ↔ ∃ a, result = .ok a ∧ f a = .ok b := by
  cases result with
  | error error => exact ⟨(nomatch ·), fun ⟨_, h, _⟩ => nomatch h⟩
  | ok a => exact ⟨fun h => ⟨a, rfl, h⟩, fun ⟨_, ha, h⟩ => Except.ok.inj ha ▸ h⟩

namespace Tree

open FlowScript.Path (IsName follow place parts)
open FileResult (bind_eq_ok_iff)

/-- What was there still is, and directories still are directories. -/
structure Keeps (tree after : Tree) : Prop where
  items : ∀ place, tree.view place ≠ none → after.view place ≠ none
  dirs : ∀ place, tree.view place = some .dir → after.view place = some .dir

theorem Keeps.refl (tree : Tree) : tree.Keeps tree :=
  ⟨fun _ => id, fun _ => id⟩

theorem Keeps.trans {tree middle after : Tree} (h : tree.Keeps middle) (h' : middle.Keeps after) :
    tree.Keeps after where
  items other hother := h'.items other (h.items other hother)
  dirs other hother := h'.dirs other (h.dirs other hother)

section Walking

variable {tree after : Tree}

theorem step_eq_ok_iff {start next : List String} {part : String} :
    tree.step start part = .ok next ↔
      tree.view start = some .dir ∧ next = follow start [part] ∧
        (part = "." ∨ part = ".." ∨ part.utf8ByteSize ≤ nameLimit ∧ tree.view next ≠ none) := by
  rw [view_eq_dir_iff]
  unfold step
  cases hnode : tree.at? start with
  | none => simp
  | some node =>
    cases node with
    | file text => simp
    | dir entries =>
      by_cases hhere : part = "."
      · simp [hhere, follow, eq_comm]
      by_cases hup : part = ".."
      · simp [hup, follow, eq_comm]
      -- Any other part is a name, and what is there under it decides.
      have hfollow : follow start [part] = start ++ [part] := by simp [follow, hhere, hup]
      have hview : tree.view (start ++ [part]) = (find? part entries).map item :=
        congrArg (Option.map item) (at?_child hnode part)
      rw [hfollow]
      by_cases hlimit : nameLimit < part.utf8ByteSize
      · simp [hhere, hup, hlimit, Nat.not_le.mpr hlimit]
      · cases hfind : find? part entries with
        | none =>
          have hnone : ¬(next = start ++ [part] ∧ tree.view next ≠ none) := by
            rintro ⟨rfl, hnext⟩
            exact hnext (by rw [hview, hfind, Option.map_none])
          simpa [hhere, hup, hlimit, hfind, Nat.not_lt.mp hlimit] using hnone
        | some node =>
          have hsome : tree.view (start ++ [part]) ≠ none := by simp [hview, hfind]
          constructor
          · intro h
            obtain rfl : start ++ [part] = next := by simpa [hhere, hup, hlimit, hfind] using h
            exact ⟨⟨entries, rfl⟩, rfl, .inr (.inr ⟨Nat.not_lt.mp hlimit, hsome⟩)⟩
          · rintro ⟨-, rfl, -⟩
            simp [hhere, hup, hlimit, hfind]

theorem walk_cons_eq_ok_iff {start stop : List String} {part : String} {rest : List String} :
    tree.walk start (part :: rest) = .ok stop ↔
      ∃ next, tree.step start part = .ok next ∧ tree.walk next rest = .ok stop := by
  rw [walk]
  exact bind_eq_ok_iff

theorem eq_follow_of_walk {start stop path : List String} (h : tree.walk start path = .ok stop) :
    stop = follow start path := by
  induction path generalizing start with
  | nil => exact (Except.ok.inj h).symm
  | cons part rest ih =>
    obtain ⟨next, hstep, hrest⟩ := walk_cons_eq_ok_iff.mp h
    rw [ih hrest, (step_eq_ok_iff.mp hstep).2.1]
    exact (Path.follow_append start [part] rest).symm

theorem walk_append_eq_ok_iff {start stop path more : List String} :
    tree.walk start (path ++ more) = .ok stop ↔
      ∃ next, tree.walk start path = .ok next ∧ tree.walk next more = .ok stop := by
  induction path generalizing start with
  | nil => simp [walk]
  | cons part rest ih =>
    rw [List.cons_append, walk_cons_eq_ok_iff]
    constructor
    · rintro ⟨middle, hstep, hrest⟩
      obtain ⟨next, hnext, hmore⟩ := ih.mp hrest
      exact ⟨next, walk_cons_eq_ok_iff.mpr ⟨middle, hstep, hnext⟩, hmore⟩
    · rintro ⟨next, hnext, hmore⟩
      obtain ⟨middle, hstep, hrest⟩ := walk_cons_eq_ok_iff.mp hnext
      exact ⟨middle, hstep, ih.mpr ⟨next, hrest, hmore⟩⟩

theorem view_of_step {start next : List String} {part : String}
    (h : tree.step start part = .ok next) : tree.view next ≠ none := by
  obtain ⟨hstart, hnext, hpart⟩ := step_eq_ok_iff.mp h
  have hthere : tree.view start ≠ none := by simp [hstart]
  rcases hpart with rfl | rfl | ⟨-, hview⟩
  · rw [hnext]
    exact hthere
  · rw [hnext]
    change tree.view start.dropLast ≠ none
    by_cases hroot : start.dropLast = start
    · rwa [hroot]
    · simp [view_above hthere (List.dropLast_prefix start) hroot]
  · exact hview

theorem view_of_walk {start stop path : List String} (hstart : tree.view start ≠ none)
    (h : tree.walk start path = .ok stop) : tree.view stop ≠ none := by
  induction path generalizing start with
  | nil =>
    obtain rfl := Except.ok.inj h
    exact hstart
  | cons part rest ih =>
    obtain ⟨next, hstep, hrest⟩ := walk_cons_eq_ok_iff.mp h
    exact ih (view_of_step hstep) hrest

theorem Keeps.walk (h : tree.Keeps after) {start stop path : List String}
    (hwalk : tree.walk start path = .ok stop) : after.walk start path = .ok stop := by
  induction path generalizing start with
  | nil => exact hwalk
  | cons part rest ih =>
    obtain ⟨next, hstep, hrest⟩ := walk_cons_eq_ok_iff.mp hwalk
    refine walk_cons_eq_ok_iff.mpr ⟨next, ?_, ih hrest⟩
    obtain ⟨hstart, hnext, hpart⟩ := step_eq_ok_iff.mp hstep
    refine step_eq_ok_iff.mpr ⟨h.dirs _ hstart, hnext, ?_⟩
    exact hpart.imp_right (Or.imp_right (And.imp_right (h.items _)))

end Walking

section Lookup

variable {tree after : Tree} {path : String}

theorem lookup_eq_ok {stop : List String} {node : Tree} (h : tree.lookup path = .ok (stop, node)) :
    checkPath path = .ok () ∧ tree.walk [] (parts path) = .ok stop ∧ stop = place path ∧
      tree.at? stop = some node := by
  obtain ⟨⟨⟩, hcheck, h⟩ := bind_eq_ok_iff.mp h
  obtain ⟨other, hwalk, h⟩ := bind_eq_ok_iff.mp h
  have hresult : other = stop ∧ tree.at? other = some node := by
    cases hnode : tree.at? other with
    | none => simp [hnode] at h
    | some found =>
      cases found with
      | file text =>
        simp only [hnode] at h
        split at h
        · cases h
        · simpa using h
      | dir entries =>
        simp only [hnode] at h
        simpa using h
  obtain ⟨rfl, hnode⟩ := hresult
  exact ⟨hcheck, hwalk, eq_follow_of_walk hwalk, hnode⟩

theorem lookup_dir {stop : List String} {entries : List (String × Tree)}
    (hcheck : checkPath path = .ok ()) (hwalk : tree.walk [] (parts path) = .ok stop)
    (hnode : tree.at? stop = some (.dir entries)) : tree.lookup path = .ok (stop, .dir entries) :=
  bind_eq_ok_iff.mpr ⟨(), hcheck, bind_eq_ok_iff.mpr ⟨stop, hwalk, by rw [hnode]⟩⟩

theorem lookup_file {stop : List String} {text : String}
    (hcheck : checkPath path = .ok ()) (hwalk : tree.walk [] (parts path) = .ok stop)
    (hnode : tree.at? stop = some (.file text)) (hslash : Path.endsInSlash path = false) :
    tree.lookup path = .ok (stop, .file text) :=
  bind_eq_ok_iff.mpr ⟨(), hcheck, bind_eq_ok_iff.mpr ⟨stop, hwalk, by simp [hnode, hslash]⟩⟩

theorem Keeps.lookup (h : tree.Keeps after) {stop : List String} {entries : List (String × Tree)}
    (hlookup : tree.lookup path = .ok (stop, .dir entries)) :
    ∃ others, after.lookup path = .ok (stop, .dir others) := by
  obtain ⟨hcheck, hwalk, -, hnode⟩ := lookup_eq_ok hlookup
  obtain ⟨others, hothers⟩ := view_eq_dir_iff.mp (h.dirs stop (view_eq_dir_iff.mpr ⟨_, hnode⟩))
  exact ⟨others, lookup_dir hcheck (h.walk hwalk) hothers⟩

theorem view_of_lookup {stop : List String} {node : Tree} (h : tree.lookup path = .ok (stop, node))
    {before : List String} (hbefore : before <+: parts path) :
    tree.view (follow [] before) ≠ none := by
  obtain ⟨-, hwalk, -, hnode⟩ := lookup_eq_ok h
  obtain ⟨later, hparts⟩ := hbefore
  rw [← hparts] at hwalk
  obtain ⟨next, hnext, -⟩ := walk_append_eq_ok_iff.mp hwalk
  rw [← eq_follow_of_walk hnext]
  exact view_of_walk (by simp [view, at?]) hnext

end Lookup

section Targets

variable {tree after : Tree} {path name : String} {dir : List String}
  {entries : List (String × Tree)}

/-- A path leads to a directory and names an entry of it, which need not be there. -/
structure Targets (tree : Tree) (path : String) (dir : List String)
    (entries : List (String × Tree)) (name : String) : Prop where
  check : checkPath path = .ok ()
  walk : tree.walk [] (parts path).dropLast = .ok dir
  node : tree.at? dir = some (.dir entries)
  last : (parts path).getLast? = some name
  isName : IsName name
  limit : name.utf8ByteSize ≤ nameLimit

theorem targets_of_target (h : tree.target path = .ok ⟨dir, entries, some name⟩) :
    tree.Targets path dir entries name := by
  obtain ⟨⟨⟩, hcheck, h⟩ := bind_eq_ok_iff.mp h
  obtain ⟨other, hwalk, h⟩ := bind_eq_ok_iff.mp h
  split at h
  · rename_i children last hnode hlast
    split at h
    · cases h
    · rename_i hdots
      split at h
      · cases h
      · rename_i hlimit
        obtain ⟨rfl, rfl, rfl⟩ : other = dir ∧ children = entries ∧ last = name := by
          simpa using h
        obtain ⟨hhere, hup⟩ := not_or.mp hdots
        exact ⟨hcheck, hwalk, hnode, hlast,
          Path.isName_of_mem_parts (List.mem_of_getLast? hlast) hhere hup, Nat.not_lt.mp hlimit⟩
  all_goals cases h

namespace Targets

theorem parts_eq (h : tree.Targets path dir entries name) :
    parts path = (parts path).dropLast ++ [name] :=
  (List.dropLast_append_getLast? name h.last).symm

theorem place_eq (h : tree.Targets path dir entries name) : place path = dir ++ [name] := by
  rw [place, h.parts_eq, Path.follow_append, Path.follow_name h.isName, eq_follow_of_walk h.walk]

theorem view_eq (h : tree.Targets path dir entries name) :
    tree.view (place path) = (find? name entries).map item := by
  rw [view, h.place_eq, at?_child h.node]

theorem sets_put (h : tree.Targets path dir entries name) {node : Tree}
    (hold : tree.view (place path) ≠ some .dir) (hnode : ∀ rest ≠ [], node.view rest = none) :
    tree.Sets (place path) node.item (tree.put (dir ++ [name]) node) := by
  rw [h.place_eq] at hold ⊢
  exact Tree.sets_put h.node hold hnode

theorem isProper_put (h : tree.Targets path dir entries name) (htree : tree.IsProper) {node : Tree}
    (hnode : node.IsProper) : (tree.put (dir ++ [name]) node).IsProper :=
  htree.alter h.isName h.limit fun _ _ _ heq => Option.some.inj heq ▸ hnode

theorem walk_put (h : tree.Targets path dir entries name) {node : Tree}
    (hkeeps : tree.Keeps (tree.put (dir ++ [name]) node)) :
    (tree.put (dir ++ [name]) node).walk [] (parts path) = .ok (place path) := by
  have hput : (tree.put (dir ++ [name]) node).at? (dir ++ [name]) = some node :=
    at?_alter h.node (.inl fun _ => rfl)
  rw [h.parts_eq, h.place_eq, walk_append_eq_ok_iff]
  refine ⟨dir, hkeeps.walk h.walk, walk_cons_eq_ok_iff.mpr ⟨dir ++ [name], ?_, rfl⟩⟩
  have hdir : (tree.put (dir ++ [name]) node).view dir = some .dir :=
    hkeeps.dirs dir (view_eq_dir_iff.mpr ⟨entries, h.node⟩)
  refine step_eq_ok_iff.mpr ⟨hdir, (Path.follow_name h.isName dir).symm, .inr (.inr ⟨h.limit, ?_⟩)⟩
  simp [view, hput]

end Targets

end Targets

section Effects

variable {tree after : Tree} {path text : String}

theorem Sets.keeps {spot : List String} {node : Item} (h : tree.Sets spot node after)
    (hold : tree.view spot ≠ some .dir) : tree.Keeps after where
  items := by
    intro other hother
    rw [h other]
    split
    · exact Option.some_ne_none _
    · exact hother
  dirs := by
    intro other hother
    have hne : other ≠ spot := fun heq => hold (heq ▸ hother)
    rw [h other, if_neg hne, hother]

theorem makeDir_eq_ok (h : tree.makeDir path = .ok after) :
    ∃ dir entries name, tree.Targets path dir entries name ∧ find? name entries = none ∧
      after = tree.put (dir ++ [name]) empty := by
  obtain ⟨⟨dir, entries, name⟩, htarget, h⟩ := bind_eq_ok_iff.mp h
  cases name with
  | none => cases h
  | some name =>
    cases hfind : find? name entries with
    | some node => simp [hfind] at h
    | none =>
      have hafter : tree.put (dir ++ [name]) empty = after := by simpa [hfind, empty] using h
      exact ⟨dir, entries, name, targets_of_target htarget, hfind, hafter.symm⟩

theorem writeFile_eq_ok (h : tree.writeFile path text = .ok after) :
    ∃ dir entries name, tree.Targets path dir entries name ∧ Path.endsInSlash path = false ∧
      (∀ children, find? name entries ≠ some (.dir children)) ∧
      after = tree.put (dir ++ [name]) (.file text) := by
  obtain ⟨⟨dir, entries, name⟩, htarget, h⟩ := bind_eq_ok_iff.mp h
  cases name with
  | none => cases h
  | some name =>
    cases hslash : Path.endsInSlash path with
    | true => simp [hslash] at h
    | false =>
      simp only [hslash, Bool.false_eq_true, if_false] at h
      split at h
      · cases h
      · rename_i hnodir
        exact ⟨dir, entries, name, targets_of_target htarget, rfl, hnodir, (Except.ok.inj h).symm⟩

section MakeDir

variable (h : tree.makeDir path = .ok after)

include h

theorem view_eq_none_of_makeDir : tree.view (place path) = none := by
  obtain ⟨dir, entries, name, htargets, hfind, -⟩ := makeDir_eq_ok h
  rw [htargets.view_eq, hfind, Option.map_none]

theorem sets_makeDir : tree.Sets (place path) .dir after := by
  have hnone := view_eq_none_of_makeDir h
  obtain ⟨dir, entries, name, htargets, -, rfl⟩ := makeDir_eq_ok h
  exact htargets.sets_put (by simp [hnone]) view_empty_of_ne_nil

theorem keeps_makeDir : tree.Keeps after :=
  (sets_makeDir h).keeps (by simp [view_eq_none_of_makeDir h])

theorem lookup_makeDir : ∃ entries, after.lookup path = .ok (place path, .dir entries) := by
  have hkeeps := keeps_makeDir h
  obtain ⟨dir, entries, name, htargets, -, rfl⟩ := makeDir_eq_ok h
  refine ⟨[], lookup_dir htargets.check (htargets.walk_put hkeeps) ?_⟩
  rw [htargets.place_eq]
  exact at?_alter htargets.node (.inl fun _ => rfl)

theorem IsProper.makeDir (htree : tree.IsProper) : after.IsProper := by
  obtain ⟨dir, entries, name, htargets, -, rfl⟩ := makeDir_eq_ok h
  exact htargets.isProper_put htree isProper_empty

end MakeDir

section WriteFile

variable (h : tree.writeFile path text = .ok after)

include h

theorem view_ne_dir_of_writeFile : tree.view (place path) ≠ some .dir := by
  obtain ⟨dir, entries, name, htargets, -, hnodir, -⟩ := writeFile_eq_ok h
  rw [htargets.view_eq]
  cases hfind : find? name entries with
  | none => simp
  | some node =>
    cases node with
    | file old => simp [item]
    | dir children => exact absurd hfind (hnodir children)

theorem sets_writeFile : tree.Sets (place path) (.file text) after := by
  have hold := view_ne_dir_of_writeFile h
  obtain ⟨dir, entries, name, htargets, -, -, rfl⟩ := writeFile_eq_ok h
  exact htargets.sets_put hold (view_file_of_ne_nil text)

theorem readFile_writeFile : after.readFile path = .ok text := by
  have hkeeps := (sets_writeFile h).keeps (view_ne_dir_of_writeFile h)
  obtain ⟨dir, entries, name, htargets, hslash, -, rfl⟩ := writeFile_eq_ok h
  have hnode : (tree.put (dir ++ [name]) (.file text)).at? (place path) = some (.file text) := by
    rw [htargets.place_eq]
    exact at?_alter htargets.node (.inl fun _ => rfl)
  exact bind_eq_ok_iff.mpr
    ⟨_, lookup_file htargets.check (htargets.walk_put hkeeps) hnode hslash, rfl⟩

theorem IsProper.writeFile (htree : tree.IsProper) : after.IsProper := by
  obtain ⟨dir, entries, name, htargets, -, -, rfl⟩ := writeFile_eq_ok h
  exact htargets.isProper_put htree (.file text)

end WriteFile

theorem view_of_readFile (h : tree.readFile path = .ok text) :
    tree.view (place path) = some (.file text) := by
  obtain ⟨⟨stop, node⟩, hlookup, h⟩ := bind_eq_ok_iff.mp h
  obtain ⟨-, -, rfl, hnode⟩ := lookup_eq_ok hlookup
  cases node with
  | dir entries => cases h
  | file found =>
    obtain rfl := Except.ok.inj h
    rw [view, hnode]
    rfl

section CopyFile

variable {source target : String} (h : tree.copyFile source target = .ok after)

include h

theorem copyFile_eq_ok : ∃ opened text, tree.writeFile target "" = .ok opened ∧
    opened.readFile source = .ok text ∧ opened.writeFile target text = .ok after := by
  obtain ⟨-, -, h⟩ := bind_eq_ok_iff.mp h
  obtain ⟨opened, hopened, h⟩ := bind_eq_ok_iff.mp h
  obtain ⟨text, htext, h⟩ := bind_eq_ok_iff.mp h
  exact ⟨opened, text, hopened, htext, h⟩

theorem view_ne_dir_of_copyFile : tree.view (place target) ≠ some .dir := by
  obtain ⟨opened, text, hopened, -, -⟩ := copyFile_eq_ok h
  exact view_ne_dir_of_writeFile hopened

theorem sets_copyFile (hne : place source ≠ place target) :
    ∃ text, tree.view (place source) = some (.file text) ∧
      tree.Sets (place target) (.file text) after := by
  obtain ⟨opened, text, hopened, hread, hwrite⟩ := copyFile_eq_ok h
  have hemptied := sets_writeFile hopened
  have hfilled := sets_writeFile hwrite
  refine ⟨text, ?_, ?_⟩
  · rw [← view_of_readFile hread, hemptied, if_neg hne]
  · intro other
    rw [hfilled other, hemptied other]
    split <;> rfl

theorem IsProper.copyFile (htree : tree.IsProper) : after.IsProper := by
  obtain ⟨opened, text, hopened, -, hwrite⟩ := copyFile_eq_ok h
  exact IsProper.writeFile hwrite (IsProper.writeFile hopened htree)

end CopyFile

section List

variable {listed : List (String × Bool)} (h : tree.list path = .ok listed)

include h

theorem list_eq_ok : ∃ entries, tree.at? (place path) = some (.dir entries) ∧
    listed = entries.map fun (name, node) => (name, node.isDirectory) := by
  obtain ⟨⟨stop, node⟩, hlookup, h⟩ := bind_eq_ok_iff.mp h
  obtain ⟨-, -, rfl, hnode⟩ := lookup_eq_ok hlookup
  cases node with
  | file text => cases h
  | dir entries => exact ⟨entries, hnode, (Except.ok.inj h).symm⟩

theorem mem_list {name : String} :
    name ∈ listed.map Prod.fst ↔ tree.view (place path ++ [name]) ≠ none := by
  obtain ⟨entries, hnode, rfl⟩ := list_eq_ok h
  have hiff : tree.view (place path ++ [name]) ≠ none ↔ name ∈ entries.map Prod.fst := by
    rw [view, at?_child hnode, ne_eq, Option.map_eq_none_iff, find?_eq_none_iff, not_not]
  rw [hiff, List.map_map]
  rfl

theorem mem_list_of_view_eq_dir {name : String}
    (hname : tree.view (place path ++ [name]) = some .dir) : (name, true) ∈ listed := by
  obtain ⟨entries, hnode, rfl⟩ := list_eq_ok h
  rw [view, at?_child hnode] at hname
  obtain ⟨node, hfind, hitem⟩ := Option.map_eq_some_iff.mp hname
  refine List.mem_map.mpr ⟨(name, node), mem_of_find?_eq_some hfind, ?_⟩
  cases node with
  | file text => cases hitem
  | dir children => rfl

theorem view_of_mem_list (htree : tree.IsProper) {name : String} {isDir : Bool}
    (hmem : (name, isDir) ∈ listed) :
    IsName name ∧ (isDir = true ↔ tree.view (place path ++ [name]) = some .dir) := by
  obtain ⟨entries, hnode, rfl⟩ := list_eq_ok h
  obtain ⟨⟨key, node⟩, hentry, heq⟩ := List.mem_map.mp hmem
  obtain ⟨rfl, rfl⟩ := Prod.mk.inj heq
  cases htree.at? hnode with
  | dir names distinct nodes =>
    refine ⟨(names _ hentry).1, ?_⟩
    rw [view, at?_child hnode, find?_of_mem distinct hentry]
    cases node <;> simp [isDirectory, item]

theorem nodup_list (htree : tree.IsProper) : (listed.map Prod.fst).Nodup := by
  obtain ⟨entries, hnode, rfl⟩ := list_eq_ok h
  cases htree.at? hnode with
  | dir names distinct nodes =>
    rw [List.map_map]
    exact distinct

end List

section RemoveDir

theorem removeEmptied_eq {stop : List String} {result : FileResult Unit}
    (h : tree.removeEmptied path stop = (result, after)) :
    after = tree ∨ after = tree.erase stop := by
  unfold removeEmptied at h
  split at h
  · exact .inl (Prod.mk.inj h).2.symm
  · exact .inl (Prod.mk.inj h).2.symm
  · split at h
    · exact .inl (Prod.mk.inj h).2.symm
    · exact .inl (Prod.mk.inj h).2.symm
    · exact .inl (Prod.mk.inj h).2.symm
    · exact .inr (Prod.mk.inj h).2.symm

/-- A removal does nothing and fails, or it empties a directory, which may have to stay then. -/
theorem removeDir_cases {result : FileResult Unit} (h : tree.removeDir path = (result, after))
    (hroot : place path ≠ []) :
    (result ≠ .ok () ∧ after = tree) ∨
      ∃ entries, tree.at? (place path) = some (.dir entries) ∧
        (after = tree.put (place path) empty ∨
          after = (tree.put (place path) empty).erase (place path)) := by
  unfold removeDir at h
  split at h
  · obtain ⟨rfl, rfl⟩ := Prod.mk.inj h
    exact .inl ⟨(nomatch ·), rfl⟩
  · obtain ⟨rfl, rfl⟩ := Prod.mk.inj h
    exact .inl ⟨(nomatch ·), rfl⟩
  · rename_i stop entries hlookup
    obtain ⟨-, -, rfl, hnode⟩ := lookup_eq_ok hlookup
    rw [if_neg hroot] at h
    exact .inr ⟨entries, hnode, removeEmptied_eq h⟩

theorem removes_of_emptied (htree : tree.IsProper) (hroot : place path ≠ [])
    {entries : List (String × Tree)} (hnode : tree.at? (place path) = some (.dir entries))
    (hafter : after = tree.put (place path) empty ∨
      after = (tree.put (place path) empty).erase (place path)) :
    tree.Removes (place path) after ∧ after.IsProper := by
  obtain ⟨dir, name, hplace⟩ : ∃ dir name, place path = dir ++ [name] :=
    ⟨_, _, (List.dropLast_append_getLast hroot).symm⟩
  rw [hplace] at hnode hafter ⊢
  have habove : tree.view dir = some .dir :=
    view_above (by simp [view, hnode]) (List.prefix_append dir [name]) (by simp)
  obtain ⟨children, hdir⟩ := view_eq_dir_iff.mp habove
  obtain ⟨hname, hlimit⟩ := htree.isName_of_find? hdir (at?_child hdir name ▸ hnode)
  have hemptied : tree.Removes (dir ++ [name]) (tree.put (dir ++ [name]) empty) :=
    removes_put_empty hdir
  have hproper : (tree.put (dir ++ [name]) empty).IsProper :=
    htree.alter hname hlimit fun _ _ _ heq => Option.some.inj heq ▸ isProper_empty
  -- The emptied directory stays if its own path led through what has gone.
  rcases hafter with rfl | rfl
  · exact ⟨hemptied, hproper⟩
  · have hlonger : ¬dir ++ [name] <+: dir := fun h => absurd h.length_le (by simp)
    obtain ⟨others, hothers⟩ :=
      view_eq_dir_iff.mp ((hemptied.elsewhere dir hlonger).trans habove)
    exact ⟨hemptied.trans (removes_erase hproper hothers),
      hproper.alter hname hlimit fun _ _ _ heq => absurd heq (Option.some_ne_none _).symm⟩

theorem removes_removeDir (htree : tree.IsProper) (h : tree.removeDir path = (.ok (), after))
    (hroot : place path ≠ []) : tree.Removes (place path) after ∧ after.IsProper := by
  rcases removeDir_cases h hroot with ⟨hfails, -⟩ | ⟨entries, hnode, hafter⟩
  · exact absurd rfl hfails
  · exact removes_of_emptied htree hroot hnode hafter

end RemoveDir

end Effects

end Tree

end FlowScript
