import FlowScript.Files.Path
import Mathlib.Data.List.Basic

/-! The place that a path names, found from its parts alone: a part goes down by a name, or up, or
stays. -/

namespace FlowScript

namespace Text

def pieces (stop : Char) (cs : List Char) : List (List Char) :=
  (splitAfter stop cs).filter (· ≠ [])

theorem splitAfter_ne_nil (stop c : Char) (cs : List Char) : splitAfter stop (c :: cs) ≠ [] := by
  rw [splitAfter]
  split
  · exact List.cons_ne_nil _ _
  · split <;> exact List.cons_ne_nil _ _

theorem splitAfter_concat (stop : Char) (cs : List Char) :
    splitAfter stop (cs ++ [stop]) = splitAfter stop cs ∨
      splitAfter stop (cs ++ [stop]) = splitAfter stop cs ++ [[]] := by
  induction cs with
  | nil => exact .inr (by simp [splitAfter])
  | cons c cs ih =>
    rw [List.cons_append, splitAfter, splitAfter]
    by_cases hc : c = stop
    · rw [if_pos hc, if_pos hc]
      exact ih.imp (congrArg ([] :: ·)) (congrArg ([] :: ·))
    · rw [if_neg hc, if_neg hc]
      cases hcs : splitAfter stop cs with
      | nil =>
        rw [hcs] at ih
        rcases ih with h | h <;> rw [h] <;> exact .inl rfl
      | cons piece rest =>
        rw [hcs] at ih
        rcases ih with h | h <;> rw [h]
        · exact .inl rfl
        · exact .inr rfl

theorem splitAfter_append_stop (stop : Char) (cs ds : List Char) :
    splitAfter stop (cs ++ stop :: ds) = splitAfter stop (cs ++ [stop]) ++ splitAfter stop ds := by
  induction cs with
  | nil => simp [splitAfter]
  | cons c cs ih =>
    rw [List.cons_append, List.cons_append, splitAfter, splitAfter, ih]
    by_cases hc : c = stop
    · rw [if_pos hc, if_pos hc, List.cons_append]
    · rw [if_neg hc, if_neg hc]
      cases hcs : splitAfter stop (cs ++ [stop]) with
      | nil =>
        cases cs with
        | nil => exact absurd hcs (splitAfter_ne_nil stop stop [])
        | cons d cs => exact absurd hcs (splitAfter_ne_nil stop d _)
      | cons piece rest => rfl

theorem pieces_append_stop (stop : Char) (cs ds : List Char) :
    pieces stop (cs ++ stop :: ds) = pieces stop cs ++ pieces stop ds := by
  unfold pieces
  rw [splitAfter_append_stop, List.filter_append]
  rcases splitAfter_concat stop cs with h | h
  · rw [h]
  · rw [h, List.filter_append]
    simp

theorem stop_notMem_of_mem_splitAfter {stop : Char} {cs piece : List Char}
    (h : piece ∈ splitAfter stop cs) : stop ∉ piece := by
  induction cs generalizing piece with
  | nil => exact absurd h List.not_mem_nil
  | cons c cs ih =>
    rw [splitAfter] at h
    by_cases hc : c = stop
    · rw [if_pos hc] at h
      rcases List.mem_cons.mp h with rfl | h
      · exact List.not_mem_nil
      · exact ih h
    · rw [if_neg hc] at h
      have hcons : ∀ rest, stop ∉ rest → stop ∉ c :: rest := fun _ =>
        List.not_mem_cons_of_ne_of_not_mem (Ne.symm hc)
      cases hcs : splitAfter stop cs with
      | nil =>
        rw [hcs] at h
        exact List.mem_singleton.mp h ▸ hcons [] List.not_mem_nil
      | cons first others =>
        rw [hcs] at ih h
        rcases List.mem_cons.mp h with rfl | h
        · exact hcons first (ih (List.mem_cons_self ..))
        · exact ih (List.mem_cons_of_mem _ h)

theorem pieces_of_notMem {stop : Char} {cs : List Char} (hcs : cs ≠ []) (hstop : stop ∉ cs) :
    pieces stop cs = [cs] := by
  have hsplit : splitAfter stop cs = [cs] := by
    induction cs with
    | nil => exact absurd rfl hcs
    | cons c cs ih =>
      obtain ⟨hc, hrest⟩ := List.ne_and_not_mem_of_not_mem_cons hstop
      rw [splitAfter, if_neg (Ne.symm hc)]
      cases cs with
      | nil => rfl
      | cons d cs => rw [ih (List.cons_ne_nil _ _) hrest]
  rw [pieces, hsplit]
  simp [hcs]

end Text

namespace Path

open Text (pieces)

theorem parts_eq (path : String) : parts path = (pieces '/' path.toList).map String.ofList := by
  unfold parts pieces
  rw [List.filter_map]
  congr 1
  refine List.filter_congr fun cs _ => ?_
  by_cases h : cs = [] <;> simp [h]

theorem parts_append_slash (path rest : String) :
    parts (path ++ "/" ++ rest) = parts path ++ parts rest := by
  have htext : (path ++ "/" ++ rest).toList = path.toList ++ '/' :: rest.toList := by simp
  rw [parts_eq, htext, Text.pieces_append_stop, List.map_append, ← parts_eq, ← parts_eq]

theorem parts_of_notMem {name : String} (hname : name ≠ "") (hslash : '/' ∉ name.toList) :
    parts name = [name] := by
  have hchars : name.toList ≠ [] := fun h => hname (String.toList_eq_nil_iff.mp h)
  rw [parts_eq, Text.pieces_of_notMem hchars hslash]
  simp

theorem parts_empty : parts "" = [] := rfl

theorem mem_parts {path part : String} (h : part ∈ parts path) :
    part ≠ "" ∧ '/' ∉ part.toList := by
  rw [parts_eq] at h
  obtain ⟨piece, hpiece, rfl⟩ := List.mem_map.mp h
  obtain ⟨hsplit, hne⟩ := List.mem_filter.mp hpiece
  rw [String.toList_ofList]
  exact ⟨by simpa using hne, Text.stop_notMem_of_mem_splitAfter hsplit⟩

/-- A name of an entry. A path that holds it as a part goes down by it. -/
structure IsName (name : String) : Prop where
  ne_empty : name ≠ ""
  no_slash : '/' ∉ name.toList
  ne_here : name ≠ "."
  ne_up : name ≠ ".."

theorem isName_of_mem_parts {path part : String} (h : part ∈ parts path) (hhere : part ≠ ".")
    (hup : part ≠ "..") : IsName part :=
  ⟨(mem_parts h).1, (mem_parts h).2, hhere, hup⟩

theorem IsName.head?_ne {name : String} (h : IsName name) : name.toList.head? ≠ some '/' := by
  intro hhead
  exact h.no_slash (List.mem_of_mem_head? hhead)

theorem isAbsolute_of_isName {name : String} (h : IsName name) : isAbsolute name = false := by
  simpa [isAbsolute] using h.head?_ne

theorem exists_eq_append_slash {path : String} (h : endsInSlash path) :
    ∃ front, path = front ++ "/" := by
  obtain ⟨front, hfront⟩ : ∃ front, path.toList = front ++ ['/'] :=
    List.getLast?_eq_some_iff.mp (by simpa [endsInSlash] using h)
  refine ⟨String.ofList front, ?_⟩
  rw [← String.toList_inj, hfront]
  simp

theorem parts_join {name : String} (h : IsName name) (dir : String) :
    parts (join dir name) = parts dir ++ [name] := by
  have hname := parts_of_notMem h.ne_empty h.no_slash
  unfold join
  rw [isAbsolute_of_isName h]
  by_cases hempty : dir = ""
  · rw [hempty, parts_empty]
    exact hname
  · rw [if_neg (by simpa using hempty)]
    by_cases hslash : endsInSlash dir
    · obtain ⟨front, rfl⟩ := exists_eq_append_slash hslash
      have hfront := parts_append_slash front ""
      rw [String.append_empty, parts_empty, List.append_nil] at hfront
      rw [if_pos hslash, parts_append_slash, hname, hfront]
    · rw [if_neg hslash, parts_append_slash, hname]

theorem join_ne_empty {name : String} (h : IsName name) (dir : String) : join dir name ≠ "" := by
  intro hempty
  have hparts := parts_join h dir
  rw [hempty, parts_empty] at hparts
  exact absurd hparts.symm (List.append_ne_nil_of_right_ne_nil _ (List.cons_ne_nil _ _))

def follow (place parts : List String) : List String :=
  parts.foldl (fun place part =>
    if part = "." then place else if part = ".." then place.dropLast else place ++ [part]) place

/-- The place that a path names, as far as it can be followed. -/
def place (path : String) : List String :=
  follow [] (parts path)

theorem ne_empty_of_place_ne_nil {path : String} (h : place path ≠ []) : path ≠ "" := by
  rintro rfl
  exact h rfl

theorem follow_append (start parts more : List String) :
    follow start (parts ++ more) = follow (follow start parts) more :=
  List.foldl_append

theorem follow_name {name : String} (h : IsName name) (start : List String) :
    follow start [name] = start ++ [name] := by
  simp [follow, h.ne_here, h.ne_up]

theorem place_join {name : String} (h : IsName name) (dir : String) :
    place (join dir name) = place dir ++ [name] := by
  rw [place, parts_join h, follow_append, follow_name h]
  rfl

theorem isName_of_mem_place {path name : String} (h : name ∈ place path) : IsName name := by
  have hfollow : ∀ (parts start : List String), (∀ part ∈ parts, part ≠ "" ∧ '/' ∉ part.toList) →
      (∀ name ∈ start, IsName name) → ∀ name ∈ follow start parts, IsName name := by
    intro parts
    induction parts with
    | nil => exact fun _ _ hstart => hstart
    | cons part rest ih =>
      intro start hparts hstart
      obtain ⟨hpart, hrest⟩ := List.forall_mem_cons.mp hparts
      rw [follow, List.foldl_cons]
      refine ih _ hrest ?_
      split
      · exact hstart
      · split
        · exact fun name hname => hstart name (List.dropLast_subset _ hname)
        · rename_i hhere hup
          refine List.forall_mem_append.mpr ⟨hstart, List.forall_mem_singleton.mpr ?_⟩
          exact ⟨hpart.1, hpart.2, hhere, hup⟩
  exact hfollow (parts path) [] (fun _ => mem_parts) (List.forall_mem_nil _) name h

theorem follow_filter (start parts : List String) :
    follow start (parts.filter (· != ".")) = follow start parts := by
  induction parts generalizing start with
  | nil => rfl
  | cons part rest ih =>
    by_cases hpart : part = "."
    · rw [List.filter_cons_of_neg (by simp [hpart]), ih, hpart]
      rfl
    · rw [List.filter_cons_of_pos (by simp [hpart])]
      exact ih _

section Upwards

theorem parts_intercalate {names : List String}
    (h : ∀ name ∈ names, name ≠ "" ∧ '/' ∉ name.toList) :
    parts ("/".intercalate names) = names := by
  induction names with
  | nil => rfl
  | cons name rest ih =>
    obtain ⟨hname, hrest⟩ := List.forall_mem_cons.mp h
    have hparts := parts_of_notMem hname.1 hname.2
    cases rest with
    | nil => simpa using hparts
    | cons next rest =>
      rw [String.intercalate_cons_cons, parts_append_slash, hparts, ih hrest]
      rfl

theorem parts_ofNames (absolute : Bool) {names : List String}
    (h : ∀ name ∈ names, name ≠ "" ∧ '/' ∉ name.toList) :
    parts (ofNames absolute names) = names := by
  unfold ofNames
  cases absolute with
  | false => simpa using parts_intercalate h
  | true =>
    have hslash := parts_append_slash "" ("/".intercalate names)
    rw [String.empty_append, parts_empty, List.nil_append, parts_intercalate h] at hslash
    exact hslash

theorem mem_parentsOf {absolute : Bool} {reversed : List String} {path : String}
    (h : path ∈ parentsOf absolute reversed) :
    ∃ names, names <+: reversed.reverse ∧ path = ofNames absolute names := by
  fun_induction parentsOf absolute reversed with
  | case1 => exact absurd h List.not_mem_nil
  | case2 => exact absurd h List.not_mem_nil
  | case3 name rest _ ih =>
    have hprefix : rest.reverse <+: (name :: rest).reverse := by
      rw [List.reverse_cons]
      exact List.prefix_append _ _
    rcases List.mem_cons.mp h with rfl | h
    · exact ⟨_, hprefix, rfl⟩
    · obtain ⟨names, hnames, rfl⟩ := ih h
      exact ⟨names, hnames.trans hprefix, rfl⟩

theorem place_of_mem_upwards {path upper : String} (h : upper ∈ upwards path) :
    ∃ before, before <+: parts path ∧ place upper = follow [] before := by
  unfold upwards at h
  split at h
  · exact absurd h List.not_mem_nil
  · rcases List.mem_cons.mp h with rfl | h
    · exact ⟨_, List.prefix_rfl, rfl⟩
    · -- A parent keeps the first parts that move, and the parts up to the last of them lead there.
      obtain ⟨kept, hkept, rfl⟩ := mem_parentsOf h
      rw [List.reverse_reverse] at hkept
      have hnames : ∀ name ∈ kept, name ≠ "" ∧ '/' ∉ name.toList := fun name hname =>
        mem_parts (List.mem_of_mem_filter (hkept.subset hname))
      obtain ⟨later, hsplit⟩ := hkept
      obtain ⟨before, after, hparts, hbefore, -⟩ := List.filter_eq_append_iff.mp hsplit.symm
      refine ⟨before, ⟨after, hparts.symm⟩, ?_⟩
      rw [place, parts_ofNames _ hnames, ← hbefore, follow_filter]

end Upwards

end Path

end FlowScript
