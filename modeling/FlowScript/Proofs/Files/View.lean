import FlowScript.Files.Tree
import FlowScript.Proofs.Files.Places

/-! A tree as what can be seen at its places. Changes of a tree show at the place where they are
made and below it. -/

namespace FlowScript.Tree

inductive Item where
  | dir
  | file (text : String)
  deriving DecidableEq, Repr

def item : Tree → Item
  | .file text => .file text
  | .dir _ => .dir

def view (tree : Tree) (place : List String) : Option Item :=
  (tree.at? place).map item

/-- Every directory names its entries apart, by names that paths can hold. -/
inductive IsProper : Tree → Prop where
  | file (text : String) : IsProper (.file text)
  | dir {entries : List (String × Tree)}
      (names : ∀ entry ∈ entries, Path.IsName entry.1 ∧ entry.1.utf8ByteSize ≤ nameLimit)
      (distinct : (entries.map Prod.fst).Nodup) (nodes : ∀ entry ∈ entries, IsProper entry.2) :
      IsProper (.dir entries)

section Entries

variable {entries : List (String × Tree)}

theorem find?_cons (name key : String) (node : Tree) (rest : List (String × Tree)) :
    find? name ((key, node) :: rest) = if key = name then some node else find? name rest := by
  unfold find?
  by_cases h : key = name <;> simp [h]

theorem find?_eq_none_iff {name : String} :
    find? name entries = none ↔ name ∉ entries.map Prod.fst := by
  induction entries with
  | nil => simp [find?]
  | cons entry rest ih =>
    obtain ⟨key, node⟩ := entry
    rw [find?_cons, List.map_cons, List.mem_cons, not_or, ← ih]
    by_cases h : key = name
    · simp [h]
    · simp [h, Ne.symm h]

theorem mem_of_find?_eq_some {name : String} {node : Tree} (h : find? name entries = some node) :
    (name, node) ∈ entries := by
  obtain ⟨⟨key, value⟩, hfind, rfl⟩ := Option.map_eq_some_iff.mp h
  have hkey : key = name := by simpa using List.find?_some hfind
  exact hkey ▸ List.mem_of_find?_eq_some hfind

theorem find?_of_mem (hdistinct : (entries.map Prod.fst).Nodup) {name : String} {node : Tree}
    (h : (name, node) ∈ entries) : find? name entries = some node := by
  induction entries with
  | nil => exact absurd h List.not_mem_nil
  | cons entry rest ih =>
    obtain ⟨key, value⟩ := entry
    obtain ⟨hkey, hrest⟩ := List.nodup_cons.mp hdistinct
    rw [find?_cons]
    rcases List.mem_cons.mp h with heq | hmem
    · obtain ⟨rfl, rfl⟩ := Prod.mk.inj heq
      exact if_pos rfl
    · have hne : key ≠ name := fun heq =>
        hkey (heq ▸ List.mem_map.mpr ⟨(name, node), hmem, rfl⟩)
      rw [if_neg hne, ih hrest hmem]

theorem find?_alterEntry (name : String) {f : Option Tree → Option Tree}
    (h : (∀ node, (f (some node)).isSome) ∨ (entries.map Prod.fst).Nodup) :
    find? name (alterEntry name f entries) = f (find? name entries) := by
  induction entries with
  | nil =>
    rw [alterEntry]
    cases hnone : f none with
    | none => exact hnone.symm
    | some node => exact (find?_cons ..).trans ((if_pos rfl).trans hnone.symm)
  | cons entry rest ih =>
    obtain ⟨key, node⟩ := entry
    rw [alterEntry, find?_cons]
    by_cases hkey : key = name
    · rw [if_pos hkey, if_pos hkey]
      cases hsome : f (some node) with
      | some other => exact (find?_cons ..).trans (if_pos rfl)
      | none =>
        -- The entry goes, and a second one of the name would come to light here.
        rcases h with h | h
        · exact absurd (h node) (by simp [hsome])
        · exact find?_eq_none_iff.mpr (hkey ▸ (List.nodup_cons.mp h).1)
    · rw [if_neg hkey, if_neg hkey, find?_cons, if_neg hkey]
      exact ih (h.imp_right fun h => (List.nodup_cons.mp h).2)

theorem find?_alterEntry_of_ne {name other : String} (hne : other ≠ name)
    (f : Option Tree → Option Tree) :
    find? other (alterEntry name f entries) = find? other entries := by
  induction entries with
  | nil =>
    rw [alterEntry]
    cases f none with
    | none => rfl
    | some node => exact (find?_cons ..).trans (if_neg (Ne.symm hne))
  | cons entry rest ih =>
    obtain ⟨key, node⟩ := entry
    rw [alterEntry, find?_cons]
    by_cases hkey : key = name
    · have hother : ¬key = other := fun heq => hne (heq.symm.trans hkey)
      rw [if_pos hkey, if_neg hother]
      cases f (some node) with
      | none => rfl
      | some changed => exact (find?_cons ..).trans (if_neg (Ne.symm hne))
    · rw [if_neg hkey, find?_cons, ih]

theorem mem_alterEntry {name : String} {f : Option Tree → Option Tree} {entry : String × Tree}
    (h : entry ∈ alterEntry name f entries) :
    entry ∈ entries ∨ entry.1 = name ∧ f (find? name entries) = some entry.2 := by
  induction entries with
  | nil =>
    rw [alterEntry] at h
    obtain ⟨node, hnode, rfl⟩ : ∃ node, f none = some node ∧ (name, node) = entry := by
      simpa using h
    exact .inr ⟨rfl, hnode⟩
  | cons first rest ih =>
    obtain ⟨key, node⟩ := first
    rw [alterEntry] at h
    rw [find?_cons]
    by_cases hkey : key = name
    · rw [if_pos hkey] at h ⊢
      rcases List.mem_append.mp h with h | h
      · obtain ⟨changed, hchanged, rfl⟩ : ∃ changed, f (some node) = some changed ∧
            (name, changed) = entry := by simpa using h
        exact .inr ⟨rfl, hchanged⟩
      · exact .inl (List.mem_cons_of_mem _ h)
    · rw [if_neg hkey] at h ⊢
      rcases List.mem_cons.mp h with rfl | h
      · exact .inl (List.mem_cons_self ..)
      · exact (ih h).imp_left (List.mem_cons_of_mem _)

theorem nodup_alterEntry (hdistinct : (entries.map Prod.fst).Nodup) (name : String)
    (f : Option Tree → Option Tree) : ((alterEntry name f entries).map Prod.fst).Nodup := by
  induction entries with
  | nil =>
    rw [alterEntry]
    cases f none <;> simp
  | cons first rest ih =>
    obtain ⟨key, node⟩ := first
    obtain ⟨hkey, hrest⟩ := List.nodup_cons.mp hdistinct
    rw [alterEntry]
    by_cases hname : key = name
    · rw [if_pos hname]
      cases f (some node) with
      | none => exact hrest
      | some changed => exact List.nodup_cons.mpr ⟨hname ▸ hkey, hrest⟩
    · rw [if_neg hname]
      refine List.nodup_cons.mpr ⟨?_, ih hrest⟩
      rwa [← find?_eq_none_iff, find?_alterEntry_of_ne hname, find?_eq_none_iff]

end Entries

section Places

variable {tree : Tree}

theorem at?_cons_dir (name : String) (rest : List String) (entries : List (String × Tree)) :
    at? (name :: rest) (.dir entries) = (find? name entries).bind (at? rest) :=
  rfl

theorem at?_append (place rest : List String) :
    tree.at? (place ++ rest) = (tree.at? place).bind (at? rest) := by
  induction place generalizing tree with
  | nil => rfl
  | cons name place ih =>
    cases tree with
    | file text => rfl
    | dir entries =>
      rw [List.cons_append, at?_cons_dir, at?_cons_dir]
      cases find? name entries with
      | none => rfl
      | some node => exact ih

theorem at?_child {dir : List String} {entries : List (String × Tree)}
    (hdir : tree.at? dir = some (.dir entries)) (name : String) :
    tree.at? (dir ++ [name]) = find? name entries := by
  rw [at?_append, hdir]
  exact Option.bind_fun_some _

theorem view_cons_dir (name : String) (rest : List String) (entries : List (String × Tree)) :
    (Tree.dir entries).view (name :: rest) = (find? name entries).bind (·.view rest) := by
  rw [view, at?_cons_dir]
  cases find? name entries <;> rfl

theorem view_eq_dir_iff {place : List String} :
    tree.view place = some .dir ↔ ∃ entries, tree.at? place = some (.dir entries) := by
  unfold view
  cases tree.at? place with
  | none => simp
  | some node => cases node <;> simp [item]

theorem view_append_eq_none {place : List String} (h : tree.view place = none)
    (rest : List String) : tree.view (place ++ rest) = none := by
  have hnode : tree.at? place = none := Option.map_eq_none_iff.mp h
  rw [view, at?_append, hnode]
  rfl

theorem view_below {place : List String} (h : tree.view place ≠ some .dir) {rest : List String}
    (hrest : rest ≠ []) : tree.view (place ++ rest) = none := by
  unfold view at h ⊢
  rw [at?_append]
  cases hnode : tree.at? place with
  | none => rfl
  | some node =>
    cases node with
    | dir entries => exact absurd rfl (hnode ▸ h)
    | file text =>
      cases rest with
      | nil => exact absurd rfl hrest
      | cons name rest => rfl

theorem view_above {above place : List String} (h : tree.view place ≠ none)
    (habove : above <+: place) (hne : above ≠ place) : tree.view above = some .dir := by
  obtain ⟨rest, rfl⟩ := habove
  by_contra hdir
  exact h (view_below hdir fun hnil => hne (by rw [hnil, List.append_nil]))

theorem IsProper.at? (h : tree.IsProper) {place : List String} {node : Tree}
    (hnode : tree.at? place = some node) : node.IsProper := by
  induction place generalizing tree with
  | nil =>
    obtain rfl := Option.some.inj hnode
    exact h
  | cons name rest ih =>
    cases h with
    | file text => cases hnode
    | dir names distinct nodes =>
      rw [at?_cons_dir] at hnode
      obtain ⟨child, hchild, hnode⟩ := Option.bind_eq_some_iff.mp hnode
      exact ih (nodes _ (mem_of_find?_eq_some hchild)) hnode

end Places

section Changes

variable {tree : Tree} {f : Option Tree → Option Tree} {dir : List String} {name : String}
  {entries : List (String × Tree)}

theorem alter_singleton (f : Option Tree → Option Tree) (name : String)
    (entries : List (String × Tree)) :
    alter f [name] (.dir entries) = .dir (alterEntry name f entries) :=
  rfl

theorem alter_cons (f : Option Tree → Option Tree) (first : String) (rest : List String)
    (name : String) (entries : List (String × Tree)) :
    alter f (first :: (rest ++ [name])) (.dir entries) =
      .dir (alterEntry first (Option.map (alter f (rest ++ [name]))) entries) := by
  rw [alter]
  exact List.append_ne_nil_of_right_ne_nil _ (List.cons_ne_nil _ _)

theorem view_alter_elsewhere (hdir : tree.at? dir = some (.dir entries)) {place : List String}
    (hplace : ¬dir ++ [name] <+: place) :
    (tree.alter f (dir ++ [name])).view place = tree.view place := by
  induction dir generalizing tree place with
  | nil =>
    obtain rfl := Option.some.inj hdir
    rw [List.nil_append, alter_singleton]
    cases place with
    | nil => rfl
    | cons other rest =>
      have hne : other ≠ name := fun heq => hplace (by simp [heq])
      rw [view_cons_dir, view_cons_dir, find?_alterEntry_of_ne hne]
  | cons first dir ih =>
    cases tree with
    | file text => cases hdir
    | dir children =>
      rw [at?_cons_dir] at hdir
      obtain ⟨child, hchild, hbelow⟩ := Option.bind_eq_some_iff.mp hdir
      rw [List.cons_append, alter_cons]
      cases place with
      | nil => rfl
      | cons other rest =>
        rw [view_cons_dir, view_cons_dir]
        by_cases hother : other = first
        · subst hother
          have hrest : ¬dir ++ [name] <+: rest := fun h =>
            hplace (List.prefix_cons_inj other |>.mpr h)
          rw [find?_alterEntry other (.inl fun _ => rfl), hchild]
          exact ih hbelow hrest
        · rw [find?_alterEntry_of_ne hother]

theorem at?_alter (hdir : tree.at? dir = some (.dir entries))
    (h : (∀ node, (f (some node)).isSome) ∨ (entries.map Prod.fst).Nodup) :
    (tree.alter f (dir ++ [name])).at? (dir ++ [name]) = f (find? name entries) := by
  induction dir generalizing tree with
  | nil =>
    obtain rfl := Option.some.inj hdir
    rw [List.nil_append, alter_singleton, at?_cons_dir, find?_alterEntry name h]
    cases f (find? name entries) <;> rfl
  | cons first dir ih =>
    cases tree with
    | file text => cases hdir
    | dir children =>
      rw [at?_cons_dir] at hdir
      obtain ⟨child, hchild, hdir⟩ := Option.bind_eq_some_iff.mp hdir
      rw [List.cons_append, alter_cons, at?_cons_dir, find?_alterEntry first (.inl fun _ => rfl),
        hchild]
      exact ih hdir

theorem IsProper.alter (h : tree.IsProper) (hname : Path.IsName name)
    (hlimit : name.utf8ByteSize ≤ nameLimit)
    (hf : ∀ node other, (∀ old, node = some old → old.IsProper) → f node = some other →
      other.IsProper) : (tree.alter f (dir ++ [name])).IsProper := by
  induction dir generalizing tree with
  | nil =>
    cases h with
    | file text => exact .file text
    | dir names distinct nodes =>
      rw [List.nil_append, alter_singleton]
      refine .dir ?_ (nodup_alterEntry distinct name f) ?_
      · intro entry hentry
        rcases mem_alterEntry hentry with hentry | ⟨hkey, -⟩
        · exact names entry hentry
        · exact hkey ▸ ⟨hname, hlimit⟩
      · intro entry hentry
        rcases mem_alterEntry hentry with hentry | ⟨-, hnode⟩
        · exact nodes entry hentry
        · exact hf _ _ (fun old hold => nodes _ (mem_of_find?_eq_some hold)) hnode
  | cons first dir ih =>
    cases h with
    | file text => exact .file text
    | dir names distinct nodes =>
      rw [List.cons_append, alter_cons]
      refine .dir ?_ (nodup_alterEntry distinct first _) ?_
      · intro entry hentry
        rcases mem_alterEntry hentry with hentry | ⟨hkey, hnode⟩
        · exact names entry hentry
        · obtain ⟨child, hchild, -⟩ := Option.map_eq_some_iff.mp hnode
          exact hkey ▸ names _ (mem_of_find?_eq_some hchild)
      · intro entry hentry
        rcases mem_alterEntry hentry with hentry | ⟨-, hnode⟩
        · exact nodes entry hentry
        · obtain ⟨child, hchild, hnode⟩ := Option.map_eq_some_iff.mp hnode
          exact hnode ▸ ih (nodes _ (mem_of_find?_eq_some hchild))

end Changes

/-- After a change nothing but the item at the place is new. -/
def Sets (tree : Tree) (place : List String) (item : Item) (after : Tree) : Prop :=
  ∀ other, after.view other = if other = place then some item else tree.view other

section Put

variable {tree : Tree} {dir : List String} {name : String} {entries : List (String × Tree)}

theorem sets_put (hdir : tree.at? dir = some (.dir entries))
    (hold : tree.view (dir ++ [name]) ≠ some .dir) {node : Tree}
    (hnode : ∀ rest ≠ [], node.view rest = none) :
    tree.Sets (dir ++ [name]) node.item (tree.put (dir ++ [name]) node) := by
  intro other
  have hput : (tree.put (dir ++ [name]) node).at? (dir ++ [name]) = some node :=
    at?_alter hdir (.inl fun _ => rfl)
  by_cases hprefix : dir ++ [name] <+: other
  · obtain ⟨rest, rfl⟩ := hprefix
    rw [view, at?_append, hput]
    by_cases hrest : rest = []
    · subst hrest
      rw [List.append_nil, if_pos rfl]
      rfl
    · rw [if_neg (by simpa using hrest), view_below hold hrest]
      exact hnode rest hrest
  · have hne : other ≠ dir ++ [name] := fun heq => hprefix (heq ▸ List.prefix_rfl)
    rw [if_neg hne]
    exact view_alter_elsewhere hdir hprefix

theorem view_file_of_ne_nil (text : String) : ∀ rest ≠ [], (Tree.file text).view rest = none := by
  intro rest hrest
  cases rest with
  | nil => exact absurd rfl hrest
  | cons name rest => rfl

theorem view_empty_of_ne_nil : ∀ rest ≠ [], empty.view rest = none := by
  intro rest hrest
  cases rest with
  | nil => exact absurd rfl hrest
  | cons name rest => rfl

theorem isProper_empty : empty.IsProper :=
  .dir (List.forall_mem_nil _) List.nodup_nil (List.forall_mem_nil _)

end Put

/-- A directory that is removed goes with all that is in it, or it is left empty. -/
structure Removes (tree : Tree) (place : List String) (after : Tree) : Prop where
  here : after.view place = none ∨ after.view place = some .dir
  below : ∀ rest ≠ [], after.view (place ++ rest) = none
  elsewhere : ∀ other, ¬place <+: other → after.view other = tree.view other

theorem Removes.trans {tree middle after : Tree} {place : List String}
    (h : tree.Removes place middle) (h' : middle.Removes place after) :
    tree.Removes place after where
  here := h'.here
  below := h'.below
  elsewhere other hother := (h'.elsewhere other hother).trans (h.elsewhere other hother)

section Remove

variable {tree : Tree} {dir : List String} {name : String} {entries : List (String × Tree)}

theorem removes_put_empty (hdir : tree.at? dir = some (.dir entries)) :
    tree.Removes (dir ++ [name]) (tree.put (dir ++ [name]) empty) := by
  have hput : (tree.put (dir ++ [name]) empty).at? (dir ++ [name]) = some empty :=
    at?_alter hdir (.inl fun _ => rfl)
  refine ⟨.inr (view_eq_dir_iff.mpr ⟨[], hput⟩), ?_, ?_⟩
  · intro rest hrest
    rw [view, at?_append, hput]
    exact view_empty_of_ne_nil rest hrest
  · intro other hother
    exact view_alter_elsewhere hdir hother

theorem removes_erase (htree : tree.IsProper) (hdir : tree.at? dir = some (.dir entries)) :
    tree.Removes (dir ++ [name]) (tree.erase (dir ++ [name])) := by
  have hdistinct : (entries.map Prod.fst).Nodup := by
    cases htree.at? hdir with
    | dir names distinct nodes => exact distinct
  have herase : (tree.erase (dir ++ [name])).at? (dir ++ [name]) = none :=
    at?_alter hdir (.inr hdistinct)
  have hgone : (tree.erase (dir ++ [name])).view (dir ++ [name]) = none := by
    rw [view, herase, Option.map_none]
  refine ⟨.inl hgone, ?_, ?_⟩
  · intro rest hrest
    exact view_below (by simp [hgone]) hrest
  · intro other hother
    exact view_alter_elsewhere hdir hother

theorem IsProper.isName_of_find? (htree : tree.IsProper) (hdir : tree.at? dir = some (.dir entries))
    {node : Tree} (hfind : find? name entries = some node) :
    Path.IsName name ∧ name.utf8ByteSize ≤ nameLimit := by
  cases htree.at? hdir with
  | dir names distinct nodes => exact names _ (mem_of_find?_eq_some hfind)

end Remove

end FlowScript.Tree
