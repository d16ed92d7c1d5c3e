import FlowScript.Proofs.Files.Operations
import Mathlib.Data.String.Basic

/-! Relative paths that go down only. They name the places of their parts, and the path of a parent
is no longer than that of the child. -/

namespace FlowScript

namespace Text

variable {stop : Char} {cs : List Char}

theorem intercalate_sublist {kept : List (List Char)} (h : kept.Sublist (splitAfter stop cs)) :
    ([stop].intercalate kept).Sublist cs := by
  induction cs generalizing kept with
  | nil =>
    obtain rfl : kept = [] := List.sublist_nil.mp h
    exact List.nil_sublist _
  | cons c cs ih =>
    rw [splitAfter] at h
    by_cases hc : c = stop
    · rw [if_pos hc] at h
      cases h with
      | cons _ h => exact (ih h).cons c
      | cons_cons _ h =>
        rename_i rest
        cases rest with
        | nil => exact List.nil_sublist _
        | cons piece rest =>
          rw [List.intercalate_cons_cons, List.nil_append, hc]
          exact (ih h).cons_cons stop
    · rw [if_neg hc] at h
      cases hcs : splitAfter stop cs with
      | nil =>
        rw [hcs] at h ih
        rcases List.sublist_singleton.mp h with rfl | rfl
        · exact List.nil_sublist _
        · simp
      | cons piece rest =>
        rw [hcs] at h ih
        cases h with
        | cons _ h => exact (ih (h.cons piece)).cons c
        | cons_cons _ h =>
          rename_i more
          have hmore := (ih (h.cons_cons piece)).cons_cons c
          cases more with
          | nil => simpa using hmore
          | cons next more =>
            rw [List.intercalate_cons_cons] at hmore ⊢
            exact hmore

theorem length_splitAfter_le : (splitAfter stop cs).length ≤ String.utf8Len cs := by
  induction cs with
  | nil => exact Nat.le_refl _
  | cons c cs ih =>
    have hc := c.utf8Size_pos
    rw [splitAfter, String.utf8Len_cons]
    split
    · rw [List.length_cons]
      omega
    · cases hcs : splitAfter stop cs with
      | nil =>
        rw [List.length_singleton]
        omega
      | cons piece rest =>
        rw [hcs, List.length_cons] at ih
        rw [List.length_cons]
        omega

end Text

namespace Path

variable {path name : String}

theorem intercalate_parts_sublist {names : List String} (h : names.Sublist (parts path)) :
    ("/".intercalate names).toList.Sublist path.toList := by
  rw [parts_eq] at h
  obtain ⟨kept, hkept, rfl⟩ := List.sublist_map_iff.mp h
  have htext : ("/".intercalate (kept.map String.ofList)).toList = ['/'].intercalate kept := by
    rw [String.toList_intercalate]
    simp [Function.comp_def]
  rw [htext]
  exact Text.intercalate_sublist (hkept.trans List.filter_sublist)

theorem length_parts_le (path : String) : (parts path).length ≤ path.utf8ByteSize := by
  rw [parts_eq, List.length_map, ← String.ofList_toList (s := path), String.utf8ByteSize_ofList,
    String.toList_ofList]
  exact (List.length_filter_le _ _).trans Text.length_splitAfter_le

theorem follow_of_isName {names : List String} (h : ∀ name ∈ names, IsName name)
    (start : List String) : follow start names = start ++ names := by
  induction names generalizing start with
  | nil => exact (List.append_nil start).symm
  | cons name rest ih =>
    obtain ⟨hname, hrest⟩ := List.forall_mem_cons.mp h
    have hsplit := follow_append start [name] rest
    rw [List.singleton_append, follow_name hname, ih hrest, List.append_assoc] at hsplit
    exact hsplit

theorem isAbsolute_append {path : String} (h : path ≠ "") (rest : String) :
    isAbsolute (path ++ rest) = isAbsolute path := by
  obtain ⟨c, cs, hpath⟩ :=
    List.exists_cons_of_ne_nil fun hnil => h (String.toList_eq_nil_iff.mp hnil)
  simp [isAbsolute, hpath]

theorem parts_parent {above : List String} (habove : above <+: parts path) :
    parts (ofNames false above) = above :=
  parts_ofNames false fun _ hname => mem_parts (habove.subset hname)

theorem endsInSlash_join (hname : IsName name) (dir : String) :
    endsInSlash (join dir name) = false := by
  have hlast (front : String) : (front ++ name).toList.getLast? ≠ some '/' := by
    have hchars : name.toList ≠ [] := fun hnil => hname.ne_empty (String.toList_eq_nil_iff.mp hnil)
    rw [String.toList_append, List.getLast?_append_of_ne_nil _ hchars]
    exact fun h => hname.no_slash (List.mem_of_getLast? h)
  unfold join endsInSlash
  rw [isAbsolute_of_isName hname]
  split
  · simpa using hlast ""
  · split
    · simpa using hlast dir
    · simpa using hlast (dir ++ "/")

/-- A relative path that goes down by each of its parts. -/
structure IsPlain (path : String) : Prop where
  ne_empty : path ≠ ""
  relative : isAbsolute path = false
  no_here : "." ∉ parts path
  no_up : ".." ∉ parts path

namespace IsPlain

variable (h : IsPlain path)

include h

theorem isName {part : String} (hpart : part ∈ parts path) : IsName part :=
  isName_of_mem_parts hpart (fun heq => h.no_here (heq ▸ hpart)) fun heq => h.no_up (heq ▸ hpart)

theorem names_eq : names path = parts path := by
  refine List.filter_eq_self.mpr fun part hpart => ?_
  simpa using (h.isName hpart).ne_here

theorem place_eq : place path = parts path :=
  follow_of_isName (fun _ => h.isName) []

theorem parts_ne_nil : parts path ≠ [] := by
  obtain ⟨c, cs, hpath⟩ :=
    List.exists_cons_of_ne_nil fun hnil => h.ne_empty (String.toList_eq_nil_iff.mp hnil)
  have hc : c ≠ '/' := by simpa [isAbsolute, hpath] using h.relative
  rw [parts_eq, hpath, Text.pieces, Text.splitAfter, if_neg hc]
  cases Text.splitAfter '/' cs <;> simp

theorem place_ne_nil : place path ≠ [] :=
  h.place_eq ▸ h.parts_ne_nil

theorem join (hname : IsName name) : IsPlain (Path.join path name) where
  ne_empty := join_ne_empty hname path
  relative := by
    unfold Path.join
    rw [isAbsolute_of_isName hname, if_neg (by simpa using h.ne_empty)]
    split
    · rw [isAbsolute_append h.ne_empty, h.relative]
    · rw [String.append_assoc, isAbsolute_append h.ne_empty, h.relative]
  no_here := by
    rw [parts_join hname, List.mem_append, List.mem_singleton, not_or]
    exact ⟨h.no_here, hname.ne_here.symm⟩
  no_up := by
    rw [parts_join hname, List.mem_append, List.mem_singleton, not_or]
    exact ⟨h.no_up, hname.ne_up.symm⟩

theorem parent {above : List String} (hne : above ≠ []) (habove : above <+: parts path) :
    IsPlain (ofNames false above) := by
  have hparts := parts_parent habove
  refine ⟨?_, ?_, ?_, ?_⟩
  · intro hempty
    rw [hempty, parts_empty] at hparts
    exact hne hparts.symm
  · obtain ⟨name, rest, rfl⟩ := List.exists_cons_of_ne_nil hne
    have hname : IsName name := h.isName (habove.subset (List.mem_cons_self ..))
    refine Eq.trans ?_ (isAbsolute_of_isName hname)
    cases rest with
    | nil => simp [ofNames]
    | cons next rest =>
      simp [ofNames, String.intercalate_cons_cons, String.append_assoc,
        isAbsolute_append hname.ne_empty]
  · rw [hparts]
    exact fun hmem => h.no_here (habove.subset hmem)
  · rw [hparts]
    exact fun hmem => h.no_up (habove.subset hmem)

theorem upwards_eq {dir : List String} (hparts : parts path = dir ++ [name]) (hne : dir ≠ []) :
    upwards path = path :: upwards (ofNames false dir) := by
  have habove : dir <+: parts path := hparts ▸ List.prefix_append _ _
  have hparent := h.parent hne habove
  rw [upwards, if_neg h.ne_empty, h.relative, h.names_eq, hparts, List.reverse_concat, parentsOf,
    List.reverse_reverse, upwards, if_neg hparent.ne_empty, hparent.relative, hparent.names_eq,
    parts_parent habove]
  simpa using hne

end IsPlain

instance (name : String) : Decidable (IsName name) :=
  decidable_of_iff (name ≠ "" ∧ '/' ∉ name.toList ∧ name ≠ "." ∧ name ≠ "..")
    ⟨fun ⟨hne, hslash, hhere, hup⟩ => ⟨hne, hslash, hhere, hup⟩,
      fun ⟨hne, hslash, hhere, hup⟩ => ⟨hne, hslash, hhere, hup⟩⟩

instance (path : String) : Decidable (IsPlain path) :=
  decidable_of_iff (path ≠ "" ∧ isAbsolute path = false ∧ "." ∉ parts path ∧ ".." ∉ parts path)
    ⟨fun ⟨hne, hrelative, hhere, hup⟩ => ⟨hne, hrelative, hhere, hup⟩,
      fun ⟨hne, hrelative, hhere, hup⟩ => ⟨hne, hrelative, hhere, hup⟩⟩

end Path

namespace Tree

open FlowScript.Path (IsPlain parts)

variable {path : String}

theorem checkPath_eq_ok_iff :
    checkPath path = .ok () ↔
      '\x00' ∉ path.toList ∧ path ≠ "" ∧ path.utf8ByteSize < pathLimit := by
  unfold checkPath FileError.ofPath?
  by_cases hnul : '\x00' ∈ path.toList
  · simp [hnul]
  by_cases hempty : path = ""
  · simp [hempty]
  by_cases hlimit : pathLimit ≤ path.utf8ByteSize
  · simp [hnul, hempty, hlimit, Nat.not_lt.mpr hlimit]
  · simp [hnul, hempty, hlimit, Nat.not_le.mp hlimit]

theorem checkPath_ne_notFound (h : path ≠ "") : checkPath path ≠ .error .notFound := by
  unfold checkPath FileError.ofPath?
  by_cases hnul : '\x00' ∈ path.toList
  · simp [hnul]
  by_cases hlimit : pathLimit ≤ path.utf8ByteSize <;> simp [h, hnul, hlimit]

theorem length_parts_lt (h : checkPath path = .ok ()) : (parts path).length < pathLimit :=
  (Path.length_parts_le path).trans_lt (checkPath_eq_ok_iff.mp h).2.2

theorem checkPath_parent (hpath : IsPlain path) (h : checkPath path = .ok ()) {above : List String}
    (hne : above ≠ []) (habove : above <+: parts path) :
    checkPath (Path.ofNames false above) = .ok () := by
  obtain ⟨hnul, -, hlimit⟩ := checkPath_eq_ok_iff.mp h
  have htext : (Path.ofNames false above).toList.Sublist path.toList := by
    simpa [Path.ofNames] using Path.intercalate_parts_sublist habove.sublist
  refine checkPath_eq_ok_iff.mpr ⟨fun hmem => hnul (htext.subset hmem),
    (hpath.parent hne habove).ne_empty, lt_of_le_of_lt ?_ hlimit⟩
  have hbytes := String.utf8Len_le_of_sublist htext
  rwa [← String.utf8ByteSize_ofList, ← String.utf8ByteSize_ofList, String.ofList_toList,
    String.ofList_toList] at hbytes

end Tree

end FlowScript
