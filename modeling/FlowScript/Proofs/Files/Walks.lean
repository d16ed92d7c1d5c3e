import FlowScript.Proofs.Files.MakeDirs
import FlowScript.Proofs.Files.PlainPaths

/-! Walks along names and the look-up of plain paths: where they end is told by what can be seen on
the way. Nothing is found where a file is in the way. -/

namespace FlowScript

open FlowScript.Path (IsName IsPlain parts place)
open FlowScript.Tree (Stored)
open FileResult (bind_eq_ok_iff)

namespace Tree

variable {tree : Tree} {path : String}

/-- No file is at a place or above it. -/
def IsOpen (tree : Tree) (place : List String) : Prop :=
  ∀ above, above <+: place → ∀ text, tree.view above ≠ some (.file text)

theorem isOpen_of_view_eq_dir {place : List String} (h : tree.view place = some .dir) :
    tree.IsOpen place := by
  intro above habove text hfile
  have hdir : tree.view above = some .dir := by
    by_cases hne : above = place
    · rw [hne, h]
    · exact view_above (by simp [h]) habove hne
  exact nomatch hdir.symm.trans hfile

theorem IsOpen.view_eq_none {place : List String} (h : tree.IsOpen place)
    (hdir : tree.view place ≠ some .dir) : tree.view place = none := by
  cases hview : tree.view place with
  | none => rfl
  | some node =>
    cases node with
    | dir => exact absurd hview hdir
    | file text => exact absurd hview (h _ List.prefix_rfl text)

theorem IsOpen.of_makesDirs {place : List String} (h : tree.IsOpen place) {after : Tree}
    {places : List String → Prop} (hdirs : tree.MakesDirs places after) : after.IsOpen place := by
  intro above habove text hfile
  rcases hdirs above with hsame | ⟨-, hdir, -⟩
  · exact h above habove text (hsame.symm.trans hfile)
  · exact nomatch hdir.symm.trans hfile

theorem IsOpen.of_removes {place spot : List String} (h : tree.IsOpen place) {removed : Tree}
    (hremoves : tree.Removes spot removed) : removed.IsOpen place := by
  intro above habove text hfile
  by_cases hbelow : spot <+: above
  · obtain ⟨rest, rfl⟩ := hbelow
    rcases eq_or_ne rest [] with rfl | hrest
    · rw [List.append_nil] at hfile
      rcases hremoves.here with hnone | hdir
      · exact nomatch hnone.symm.trans hfile
      · exact nomatch hdir.symm.trans hfile
    · exact nomatch (hremoves.below rest hrest).symm.trans hfile
  · exact h above habove text ((hremoves.elsewhere above hbelow).symm.trans hfile)

theorem isOpen_of_missing {dir place : List String} {name : String}
    (hdir : tree.view dir = some .dir) (hnone : tree.view (dir ++ [name]) = none)
    (hplace : dir ++ [name] <+: place) : tree.IsOpen place := by
  intro above habove text hfile
  rcases List.prefix_or_prefix_of_prefix habove hplace with hupper | ⟨rest, rfl⟩
  · rcases List.prefix_concat_iff.mp hupper with rfl | hupper
    · exact nomatch hnone.symm.trans hfile
    · exact isOpen_of_view_eq_dir hdir above hupper text hfile
  · exact nomatch (view_append_eq_none hnone rest).symm.trans hfile

theorem IsProper.names_of_view (htree : tree.IsProper) {place : List String}
    (hplace : tree.view place ≠ none) :
    ∀ name ∈ place, IsName name ∧ name.utf8ByteSize ≤ nameLimit := by
  induction place generalizing tree with
  | nil => exact List.forall_mem_nil _
  | cons first rest ih =>
    cases htree with
    | file text => exact absurd rfl hplace
    | dir names distinct nodes =>
      rename_i entries
      rw [view_cons_dir] at hplace
      cases hfind : find? first entries with
      | none =>
        rw [hfind] at hplace
        exact absurd rfl hplace
      | some node =>
        rw [hfind] at hplace
        have hentry := mem_of_find?_eq_some hfind
        exact List.forall_mem_cons.mpr ⟨names _ hentry, ih (nodes _ hentry) hplace⟩

theorem ne_nil_of_view_eq_none {place : List String} (h : tree.view place = none) :
    place ≠ [] := by
  rintro rfl
  cases h

section Walking

variable {start names : List String}

/-- How a walk along names ends. -/
inductive Ends (tree : Tree) (start names : List String) : FileResult (List String) → Prop where
  | there (hview : tree.view (start ++ names) ≠ none) : Ends tree start names (.ok (start ++ names))
  | missing {before : List String} {name : String} (hbefore : before ++ [name] <+: names)
      (hdir : tree.view (start ++ before) = some .dir)
      (hnone : tree.view (start ++ (before ++ [name])) = none) :
      Ends tree start names (.error .notFound)
  | blocked {before : List String} {text : String} (hbefore : before <+: names)
      (hne : before ≠ names) (hfile : tree.view (start ++ before) = some (.file text)) :
      Ends tree start names (.error .notDirectory)
  | tooLong {name : String} (hname : name ∈ names) (hlimit : nameLimit < name.utf8ByteSize) :
      Ends tree start names (.error .nameTooLong)

theorem Ends.cons {name : String} {result : FileResult (List String)}
    (h : tree.Ends (start ++ [name]) names result) : tree.Ends start (name :: names) result := by
  have hsplit (rest : List String) : start ++ [name] ++ rest = start ++ name :: rest :=
    List.append_assoc ..
  cases h with
  | there hview =>
    rw [hsplit] at hview ⊢
    exact .there hview
  | missing hbefore hdir hnone =>
    rw [hsplit] at hdir hnone
    exact .missing (List.prefix_cons_inj name |>.mpr hbefore) hdir hnone
  | blocked hbefore hne hfile =>
    rw [hsplit] at hfile
    exact .blocked (List.prefix_cons_inj name |>.mpr hbefore) (by simpa using hne) hfile
  | tooLong hname hlimit => exact .tooLong (List.mem_cons_of_mem _ hname) hlimit

theorem ends_walk (hnames : ∀ name ∈ names, IsName name) (hstart : tree.view start ≠ none) :
    tree.Ends start names (tree.walk start names) := by
  induction names generalizing start with
  | nil =>
    have hthere : tree.view (start ++ []) ≠ none := by rwa [List.append_nil]
    have hends := Ends.there hthere
    rwa [List.append_nil] at hends
  | cons name rest ih =>
    obtain ⟨hname, hrest⟩ := List.forall_mem_cons.mp hnames
    rw [walk]
    cases hnode : tree.at? start with
    | none => exact absurd (by rw [view, hnode, Option.map_none]) hstart
    | some node =>
      cases node with
      | file text =>
        have hfile : tree.view (start ++ []) = some (.file text) := by simp [view, hnode, item]
        have hstep : tree.step start name = .error .notDirectory := by simp [step, hnode]
        rw [hstep]
        exact .blocked (List.nil_prefix) (List.cons_ne_nil name rest).symm hfile
      | dir entries =>
        have hdir : tree.view (start ++ []) = some .dir := by simp [view, hnode, item]
        have hview : tree.view (start ++ [name]) = (find? name entries).map item := by
          rw [view, at?_child hnode]
        by_cases hlimit : nameLimit < name.utf8ByteSize
        · have hstep : tree.step start name = .error .nameTooLong := by
            simp [step, hnode, hname.ne_here, hname.ne_up, hlimit]
          rw [hstep]
          exact .tooLong (List.mem_cons_self ..) hlimit
        · cases hfind : find? name entries with
          | none =>
            have hstep : tree.step start name = .error .notFound := by
              simp [step, hnode, hname.ne_here, hname.ne_up, hlimit, hfind]
            rw [hstep]
            rw [hfind, Option.map_none] at hview
            have hhead : [] ++ [name] <+: name :: rest := ⟨rest, rfl⟩
            exact .missing hhead hdir hview
          | some child =>
            have hstep : tree.step start name = .ok (start ++ [name]) := by
              simp [step, hnode, hname.ne_here, hname.ne_up, hlimit, hfind]
            rw [hstep]
            exact (ih hrest (by simp [hview, hfind])).cons

theorem walk_of_view (htree : tree.IsProper) (hnames : ∀ name ∈ names, IsName name)
    (hview : tree.view names ≠ none) : tree.walk [] names = .ok names := by
  have hends : tree.Ends [] names (tree.walk [] names) :=
    ends_walk hnames (by simp [view, at?])
  generalize hresult : tree.walk [] names = result at hends
  cases hends with
  | there _ => rfl
  | missing hbefore _ hnone =>
    obtain ⟨rest, rfl⟩ := hbefore
    exact absurd (view_append_eq_none hnone rest) hview
  | blocked hbefore hne hfile =>
    rw [List.nil_append, view_above hview hbefore hne] at hfile
    cases hfile
  | tooLong hname hlimit =>
    exact absurd (htree.names_of_view hview _ hname).2 (Nat.not_le.mpr hlimit)

end Walking

section Lookup

theorem exists_of_isOk_lookup (h : (tree.lookup path).isOk) :
    ∃ node, tree.lookup path = .ok (place path, node) := by
  cases hlookup : tree.lookup path with
  | error error =>
    rw [hlookup] at h
    cases h
  | ok found =>
    obtain ⟨stop, node⟩ := found
    obtain ⟨-, -, rfl, -⟩ := lookup_eq_ok hlookup
    exact ⟨node, rfl⟩

theorem exists_list_iff : (∃ listed, tree.list path = .ok listed) ↔ tree.Reaches path := by
  constructor
  · rintro ⟨listed, h⟩
    obtain ⟨⟨stop, node⟩, hlookup, h⟩ := bind_eq_ok_iff.mp h
    obtain ⟨-, -, rfl, -⟩ := lookup_eq_ok hlookup
    cases node with
    | file text => cases h
    | dir entries => exact ⟨entries, hlookup⟩
  · rintro ⟨entries, hlookup⟩
    exact ⟨_, bind_eq_ok_iff.mpr ⟨_, hlookup, rfl⟩⟩

variable (htree : tree.IsProper) (hpath : IsPlain path)

include htree hpath

theorem walk_parts (hview : tree.view (place path) ≠ none) :
    tree.walk [] (parts path) = .ok (place path) := by
  rw [hpath.place_eq] at hview ⊢
  exact walk_of_view htree (fun _ => hpath.isName) hview

theorem reaches_iff :
    tree.Reaches path ↔ checkPath path = .ok () ∧ tree.view (place path) = some .dir := by
  constructor
  · intro h
    have hview := h.view_eq
    obtain ⟨entries, hlookup⟩ := h
    exact ⟨(lookup_eq_ok hlookup).1, hview⟩
  · rintro ⟨hcheck, hview⟩
    obtain ⟨entries, hnode⟩ := view_eq_dir_iff.mp hview
    exact ⟨entries, lookup_dir hcheck (walk_parts htree hpath (by simp [hview])) hnode⟩

theorem isDir_eq_true_iff : ((FileSystem.isDir path : Stored Bool).run tree).1 = true ↔
    checkPath path = .ok () ∧ tree.view (place path) = some .dir := by
  rw [← reaches_iff htree hpath]
  refine ⟨reaches_of_isDir, ?_⟩
  rintro ⟨entries, hlookup⟩
  simp [FileSystem.isDir, hlookup, isDirectory]
  rfl

theorem readFile_of_view {text : String} (hcheck : checkPath path = .ok ())
    (hview : tree.view (place path) = some (.file text)) (hslash : Path.endsInSlash path = false) :
    tree.readFile path = .ok text := by
  obtain ⟨node, hnode, hitem⟩ := Option.map_eq_some_iff.mp hview
  cases node with
  | dir entries => cases hitem
  | file found =>
    obtain rfl := Item.file.inj hitem
    have hwalk := walk_parts htree hpath (by simp [hview])
    exact bind_eq_ok_iff.mpr ⟨_, lookup_file hcheck hwalk hnode hslash, rfl⟩

end Lookup

end Tree

end FlowScript
