import FlowScript.Proofs.Json.Fields

/-! Values that are read again. The keys of an object that was read are distinct, so that a value
is read of its own document as it was read of another one. -/

namespace FlowScript.Json

section Insertion

variable {key : String} {value : Json} {members : List (String × Json)}

theorem insert_of_notMem (h : key ∉ members.map Prod.fst) :
    insert key value members = members ++ [(key, value)] := by
  induction members with
  | nil => rfl
  | cons member rest ih =>
    obtain ⟨hne, hrest⟩ := List.ne_and_not_mem_of_not_mem_cons h
    rw [insert, if_neg (Ne.symm hne), ih hrest, List.cons_append]

theorem map_fst_insert_of_mem (h : key ∈ members.map Prod.fst) :
    (insert key value members).map Prod.fst = members.map Prod.fst := by
  induction members with
  | nil => contradiction
  | cons member rest ih =>
    rw [insert]
    by_cases hkey : member.1 = key
    · rw [if_pos hkey, List.map_cons, List.map_cons, hkey]
    · have hrest : key ∈ rest.map Prod.fst :=
        (List.mem_cons.mp h).resolve_left (Ne.symm hkey)
      rw [if_neg hkey, List.map_cons, List.map_cons, ih hrest]

theorem nodup_insert (h : (members.map Prod.fst).Nodup) :
    ((insert key value members).map Prod.fst).Nodup := by
  by_cases hkey : key ∈ members.map Prod.fst
  · rwa [map_fst_insert_of_mem hkey]
  · rw [insert_of_notMem hkey, List.map_append]
    exact h.append (List.nodup_singleton key) (by simpa using hkey)

theorem mem_of_mem_insert {member : String × Json} (h : member ∈ insert key value members) :
    member = (key, value) ∨ member ∈ members := by
  induction members with
  | nil => exact .inl (List.mem_singleton.mp h)
  | cons first rest ih =>
    rw [insert] at h
    split at h
    · exact (List.mem_cons.mp h).imp_right (List.mem_cons_of_mem first)
    · rcases List.mem_cons.mp h with rfl | h
      · exact .inr List.mem_cons_self
      · exact (ih h).imp_right (List.mem_cons_of_mem first)

theorem foldl_insert_of_nodup {acc : List (String × Json)}
    (h : ((acc ++ members).map Prod.fst).Nodup) :
    members.foldl (fun acc (key, value) => insert key value acc) acc = acc ++ members := by
  induction members generalizing acc with
  | nil => simp
  | cons member rest ih =>
    obtain ⟨key, value⟩ := member
    have hkey : key ∉ acc.map Prod.fst := by
      rw [List.map_append, List.map_cons] at h
      exact fun hmem => (List.nodup_append.mp h).2.2 _ hmem _ List.mem_cons_self rfl
    rw [List.foldl_cons]
    dsimp only
    rw [insert_of_notMem hkey, ih (by simpa using h), List.append_assoc, List.singleton_append]

theorem ofMembers_of_nodup (h : (members.map Prod.fst).Nodup) : ofMembers members = members :=
  foldl_insert_of_nodup h

theorem ofMembers_spec (members : List (String × Json)) :
    ((ofMembers members).map Prod.fst).Nodup ∧ ∀ member ∈ ofMembers members, member ∈ members := by
  have hfold : ∀ acc : List (String × Json), (acc.map Prod.fst).Nodup →
      let all := members.foldl (fun acc (key, value) => insert key value acc) acc
      (all.map Prod.fst).Nodup ∧ ∀ member ∈ all, member ∈ acc ∨ member ∈ members := by
    intro acc hacc
    induction members generalizing acc with
    | nil => exact ⟨hacc, fun _ h => .inl h⟩
    | cons first rest ih =>
      obtain ⟨hnodup, hmem⟩ := ih _ (nodup_insert hacc)
      refine ⟨hnodup, fun member hmember => ?_⟩
      rcases hmem member hmember with h | h
      · exact (mem_of_mem_insert h).elim (fun h => .inr (h ▸ List.mem_cons_self)) .inl
      · exact .inr (List.mem_cons_of_mem _ h)
  obtain ⟨hnodup, hmem⟩ := hfold [] List.nodup_nil
  exact ⟨hnodup, fun member h => (hmem member h).resolve_left List.not_mem_nil⟩

end Insertion

mutual

/-- The document of a value, without places: what a decoder meets when the value does not come from
a text. -/
def toDoc : Json → Doc
  | .null => .null 0 0
  | .bool b => .bool 0 b 0
  | .number n => .number 0 (.ok n) 0
  | .string s => .string 0 (.ok s) 0
  | .array items => .array 0 (toDocs items) (.closed 0)
  | .object members => .object 0 (toMemberDocs members) (.closed 0)

def toDocs : List Json → List Doc
  | [] => []
  | item :: rest => item.toDoc :: toDocs rest

def toMemberDocs : List (String × Json) → List (Key × Doc)
  | [] => []
  | (key, value) :: rest => (⟨.ok key, 0⟩, value.toDoc) :: toMemberDocs rest

end

theorem toDocs_eq_map (items : List Json) : toDocs items = items.map toDoc := by
  induction items with
  | nil => rfl
  | cons item rest ih => rw [toDocs, ih, List.map_cons]

theorem toMemberDocs_eq_map (members : List (String × Json)) :
    toMemberDocs members = members.map fun (key, value) => (⟨.ok key, 0⟩, value.toDoc) := by
  induction members with
  | nil => rfl
  | cons member rest ih => rw [toMemberDocs, ih, List.map_cons]

theorem toMemberDocs_append (first second : List (String × Json)) :
    toMemberDocs (first ++ second) = toMemberDocs first ++ toMemberDocs second := by
  rw [toMemberDocs_eq_map, toMemberDocs_eq_map, toMemberDocs_eq_map, List.map_append]

/-- The value is read of its own document with so many levels left. -/
def Rereads (depth : Depth) (value : Json) : Prop :=
  value.toDoc.toJson depth = .ok value

section Levels

variable {depth more : Nat}

theorem enter_eq_ok (start : Nat) (h : 1 < depth) : Depth.enter depth start = .ok (depth - 1) :=
  if_neg (Nat.not_le.mpr h)

theorem one_lt_of_enter {inner start : Nat} (h : Depth.enter depth start = .ok inner) :
    1 < depth := by
  unfold Depth.enter at h
  split at h
  · contradiction
  · next hdepth => exact Nat.not_le.mp hdepth

theorem exists_enter_of_le {inner start : Nat} (hmore : depth ≤ more)
    (h : Depth.enter depth start = .ok inner) :
    ∃ next, inner ≤ next ∧ Depth.enter more start = .ok next := by
  obtain rfl := enter_eq_sub_one h
  exact ⟨more - 1, Nat.sub_le_sub_right hmore 1,
    enter_eq_ok start (Nat.lt_of_lt_of_le (one_lt_of_enter h) hmore)⟩

end Levels

section Deeper

mutual

theorem toJson_of_le {depth more : Nat} (hmore : depth ≤ more) {value : Json} :
    (doc : Doc) → doc.toJson depth = .ok value → doc.toJson more = .ok value
  | .null _ _, hok | .bool _ _ _, hok | .number _ _ _, hok | .string _ _ _, hok => hok
  | .array start items ending, hok => by
    obtain ⟨inner, henter, hok⟩ := bind_eq_ok_iff.mp hok
    obtain ⟨values, hvalues, hok⟩ := bind_eq_ok_iff.mp hok
    obtain ⟨next, hnext, henter⟩ := exists_enter_of_le hmore henter
    exact bind_eq_ok_iff.mpr ⟨next, henter,
      bind_eq_ok_iff.mpr ⟨values, itemsToJson_of_le hnext items hvalues, hok⟩⟩
  | .object start members ending, hok => by
    obtain ⟨inner, henter, hok⟩ := bind_eq_ok_iff.mp hok
    obtain ⟨values, hvalues, hok⟩ := bind_eq_ok_iff.mp hok
    obtain ⟨next, hnext, henter⟩ := exists_enter_of_le hmore henter
    exact bind_eq_ok_iff.mpr ⟨next, henter,
      bind_eq_ok_iff.mpr ⟨values, membersToJson_of_le hnext members hvalues, hok⟩⟩
  | .broken _ _ _, hok => nomatch hok

theorem itemsToJson_of_le {depth more : Nat} (hmore : depth ≤ more) {values : List Json} :
    (items : List Doc) → Doc.itemsToJson depth items = .ok values →
      Doc.itemsToJson more items = .ok values
  | [], hok => hok
  | item :: rest, hok => by
    obtain ⟨value, hvalue, hok⟩ := bind_eq_ok_iff.mp hok
    obtain ⟨others, hothers, hok⟩ := bind_eq_ok_iff.mp hok
    exact bind_eq_ok_iff.mpr ⟨value, toJson_of_le hmore item hvalue,
      bind_eq_ok_iff.mpr ⟨others, itemsToJson_of_le hmore rest hothers, hok⟩⟩

theorem membersToJson_of_le {depth more : Nat} (hmore : depth ≤ more)
    {values : List (String × Json)} :
    (members : List (Key × Doc)) → Doc.membersToJson depth members = .ok values →
      Doc.membersToJson more members = .ok values
  | [], hok => hok
  | (key, doc) :: rest, hok => by
    obtain ⟨name, hname, hok⟩ := bind_eq_ok_iff.mp hok
    obtain ⟨value, hvalue, hok⟩ := bind_eq_ok_iff.mp hok
    obtain ⟨others, hothers, hok⟩ := bind_eq_ok_iff.mp hok
    refine bind_eq_ok_iff.mpr ⟨name, hname, bind_eq_ok_iff.mpr ⟨value, ?_, ?_⟩⟩
    · exact toJson_of_le hmore doc hvalue
    · exact bind_eq_ok_iff.mpr ⟨others, membersToJson_of_le hmore rest hothers, hok⟩

end

end Deeper

section Rereading

variable {depth more : Nat}

theorem Rereads.of_le {value : Json} (h : value.Rereads depth) (hmore : depth ≤ more) :
    value.Rereads more :=
  toJson_of_le hmore value.toDoc h

theorem itemsToJson_toDocs {items : List Json} (h : ∀ item ∈ items, item.Rereads depth) :
    Doc.itemsToJson depth (toDocs items) = .ok items := by
  induction items with
  | nil => rfl
  | cons item rest ih =>
    obtain ⟨hitem, hrest⟩ := List.forall_mem_cons.mp h
    exact bind_eq_ok_iff.mpr ⟨item, hitem, bind_eq_ok_iff.mpr ⟨rest, ih hrest, rfl⟩⟩

theorem membersToJson_toMemberDocs {members : List (String × Json)}
    (h : ∀ member ∈ members, member.2.Rereads depth) :
    Doc.membersToJson depth (toMemberDocs members) = .ok members := by
  induction members with
  | nil => rfl
  | cons member rest ih =>
    obtain ⟨hmember, hrest⟩ := List.forall_mem_cons.mp h
    exact bind_eq_ok_iff.mpr ⟨member.1, rfl,
      bind_eq_ok_iff.mpr ⟨member.2, hmember, bind_eq_ok_iff.mpr ⟨rest, ih hrest, rfl⟩⟩⟩

theorem rereads_array {items : List Json} (hdepth : 1 < depth)
    (h : ∀ item ∈ items, item.Rereads (depth - 1)) : (Json.array items).Rereads depth :=
  bind_eq_ok_iff.mpr ⟨depth - 1, enter_eq_ok 0 hdepth,
    bind_eq_ok_iff.mpr ⟨items, itemsToJson_toDocs h, rfl⟩⟩

theorem rereads_object {members : List (String × Json)} (hdepth : 1 < depth)
    (hkeys : (members.map Prod.fst).Nodup) (h : ∀ member ∈ members, member.2.Rereads (depth - 1)) :
    (Json.object members).Rereads depth := by
  refine bind_eq_ok_iff.mpr ⟨depth - 1, enter_eq_ok 0 hdepth, ?_⟩
  refine bind_eq_ok_iff.mpr ⟨members, membersToJson_toMemberDocs h, ?_⟩
  show Except.ok (Json.object (ofMembers members)) = .ok (.object members)
  rw [ofMembers_of_nodup hkeys]

mutual

theorem rereads_of_toJson {depth : Depth} {value : Json} :
    (doc : Doc) → doc.toJson depth = .ok value → value.Rereads depth
  | .null _ _, hok => by
    obtain rfl := Except.ok.inj hok
    rfl
  | .bool _ _ _, hok => by
    obtain rfl := Except.ok.inj hok
    rfl
  | .number _ _ _, hok => by
    obtain ⟨n, -, rfl⟩ := map_eq_ok_iff.mp hok
    rfl
  | .string _ _ _, hok => by
    obtain ⟨s, -, rfl⟩ := map_eq_ok_iff.mp hok
    rfl
  | .array start items ending, hok => by
    obtain ⟨inner, henter, hok⟩ := bind_eq_ok_iff.mp hok
    obtain ⟨values, hvalues, hok⟩ := bind_eq_ok_iff.mp hok
    obtain ⟨_, -, hok⟩ := bind_eq_ok_iff.mp hok
    obtain rfl := Except.ok.inj hok
    obtain rfl := enter_eq_sub_one henter
    exact rereads_array (one_lt_of_enter henter) (rereads_of_itemsToJson items hvalues)
  | .object start members ending, hok => by
    obtain ⟨inner, henter, hok⟩ := bind_eq_ok_iff.mp hok
    obtain ⟨values, hvalues, hok⟩ := bind_eq_ok_iff.mp hok
    obtain ⟨_, -, hok⟩ := bind_eq_ok_iff.mp hok
    obtain rfl := Except.ok.inj hok
    obtain rfl := enter_eq_sub_one henter
    have hrereads := rereads_of_membersToJson members hvalues
    obtain ⟨hkeys, hmem⟩ := ofMembers_spec values
    exact rereads_object (one_lt_of_enter henter) hkeys fun member hmember =>
      hrereads member (hmem member hmember)
  | .broken _ _ _, hok => nomatch hok

theorem rereads_of_itemsToJson {depth : Depth} {values : List Json} :
    (items : List Doc) → Doc.itemsToJson depth items = .ok values →
      ∀ value ∈ values, value.Rereads depth
  | [], hok => by
    obtain rfl := Except.ok.inj hok
    exact List.forall_mem_nil _
  | item :: rest, hok => by
    obtain ⟨value, hvalue, hok⟩ := bind_eq_ok_iff.mp hok
    obtain ⟨others, hothers, hok⟩ := bind_eq_ok_iff.mp hok
    obtain rfl := Except.ok.inj hok
    exact List.forall_mem_cons.mpr
      ⟨rereads_of_toJson item hvalue, rereads_of_itemsToJson rest hothers⟩

theorem rereads_of_membersToJson {depth : Depth} {values : List (String × Json)} :
    (members : List (Key × Doc)) → Doc.membersToJson depth members = .ok values →
      ∀ member ∈ values, member.2.Rereads depth
  | [], hok => by
    obtain rfl := Except.ok.inj hok
    exact List.forall_mem_nil _
  | (key, doc) :: rest, hok => by
    obtain ⟨name, -, hok⟩ := bind_eq_ok_iff.mp hok
    obtain ⟨value, hvalue, hok⟩ := bind_eq_ok_iff.mp hok
    obtain ⟨others, hothers, hok⟩ := bind_eq_ok_iff.mp hok
    obtain rfl := Except.ok.inj hok
    exact List.forall_mem_cons.mpr
      ⟨rereads_of_toJson doc hvalue, rereads_of_membersToJson rest hothers⟩

end

namespace Decoder

variable {doc : Doc}

theorem toJson_of_string {s : String} (h : string depth doc = .ok s) :
    doc.toJson more = .ok (.string s) := by
  unfold string at h
  split at h
  · obtain rfl := Except.ok.inj h
    rfl
  · contradiction

theorem toJson_of_natural {n : Nat} (h : natural depth doc = .ok n) :
    doc.toJson more = .ok (.number (.natural n)) := by
  unfold natural at h
  split at h
  · obtain rfl := Except.ok.inj h
    rfl
  · contradiction
  · contradiction

theorem members_eq_ok_iff {all : List (String × Json)} :
    members depth doc = .ok all ↔ doc.toJson depth = .ok (.object all) := by
  cases doc with
  | object start entries ending =>
    simp [members, Doc.toJson, bind_eq_ok_iff, pure, Except.pure]
  | number start value stop =>
    cases value <;> simp [members, Doc.toJson, Except.map]
  | string start value stop =>
    cases value <;> simp [members, Doc.toJson, Except.map]
  | array start items ending =>
    simp [members, Doc.toJson, bind_eq_ok_iff, pure, Except.pure]
  | null start stop => simp [members, Doc.toJson]
  | bool start b stop => simp [members, Doc.toJson]
  | broken start read skipped => simp [members, Doc.toJson]

theorem toJson_of_members (hmore : depth ≤ more) {all : List (String × Json)}
    (h : members depth doc = .ok all) : doc.toJson more = .ok (.object all) :=
  toJson_of_le hmore doc (members_eq_ok_iff.mp h)

end Decoder

end Rereading

end FlowScript.Json
