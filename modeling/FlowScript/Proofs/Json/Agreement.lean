import FlowScript.Proofs.Json.Reduction
import Mathlib.Data.Option.Defs

/-! What is read of a document and what is read of it without some members. What is left out is
blank, and all else is as it was. -/

namespace FlowScript.Json

/-- What is read of a document is related to what is read of it without some members. -/
def Decoder.Agrees {α : Type} (R : α → α → Prop) (decode : Decoder α) : Prop :=
  ∀ depth doc doc' a a', doc.ReducesTo doc' → decode depth doc = .ok a →
    decode depth doc' = .ok a' → R a a'

/-- The second value is blank, or related to the first. -/
def BlankOr {α : Type} (blank : α) (R : α → α → Prop) (a a' : α) : Prop :=
  a' = blank ∨ R a a'

section Lists

variable {α : Type} {R : α → α → Prop}

theorem exists_getElem?_of_forall₂ {as as' : List α} (h : List.Forall₂ R as as') {index : Nat}
    {a' : α} (ha' : as'[index]? = some a') : ∃ a, as[index]? = some a ∧ R a a' := by
  induction h generalizing index with
  | nil => simp at ha'
  | @cons a _ _ _ hfirst _ ih =>
    cases index with
    | zero =>
      obtain rfl := Option.some.inj ha'
      exact ⟨a, rfl, hfirst⟩
    | succ index => exact ih ha'

theorem BlankOr.exists_getElem? {as as' : List α} (h : BlankOr [] (List.Forall₂ R) as as')
    {index : Nat} {a' : α} (ha' : as'[index]? = some a') : ∃ a, as[index]? = some a ∧ R a a' := by
  obtain rfl | h := h
  · simp at ha'
  · exact exists_getElem?_of_forall₂ h ha'

theorem BlankOr.exists_some {a? a'? : Option α} (h : BlankOr none (Option.Rel R) a? a'?) {a' : α}
    (ha' : a'? = some a') : ∃ a, a? = some a ∧ R a a' := by
  subst ha'
  obtain h | h := h
  · contradiction
  · cases h with
    | some hR => exact ⟨_, rfl, hR⟩

end Lists

namespace Decoder

variable {α : Type} {R : α → α → Prop} {decode : Decoder α}

theorem agrees_string : string.Agrees Eq := by
  intro depth doc doc' a a' hreduces hok hok'
  rw [string_eq_ok hreduces hok] at hok'
  exact Except.ok.inj hok'

theorem Agrees.optional (h : decode.Agrees R) : decode.optional.Agrees (Option.Rel R) := by
  intro depth doc doc' a a' hreduces hok hok'
  cases hreduces with
  | null =>
    obtain rfl := Except.ok.inj hok
    obtain rfl := Except.ok.inj hok'
    exact .none
  | _ =>
    rw [optional_eq rfl] at hok hok'
    obtain ⟨value, hvalue, rfl⟩ := map_eq_ok_iff.mp hok
    obtain ⟨value', hvalue', rfl⟩ := map_eq_ok_iff.mp hok'
    exact .some (h depth _ _ value value' (by constructor <;> assumption) hvalue hvalue')

theorem Agrees.forall₂ (h : decode.Agrees R) {depth : Depth} {items items' : List Doc}
    (hitems : List.Forall₂ Doc.ReducesTo items items') {values values' : List α}
    (hok : List.Forall₂ (fun item value => decode depth item = .ok value) items values)
    (hok' : List.Forall₂ (fun item value => decode depth item = .ok value) items' values') :
    List.Forall₂ R values values' := by
  induction hitems generalizing values values' with
  | nil =>
    cases hok
    cases hok'
    exact .nil
  | cons hitem _ ih =>
    cases hok with
    | cons hvalue hvalues =>
      cases hok' with
      | cons hvalue' hvalues' =>
        exact .cons (h depth _ _ _ _ hitem hvalue hvalue') (ih hvalues hvalues')

theorem Agrees.list (h : decode.Agrees R) : decode.list.Agrees (List.Forall₂ R) := by
  intro depth doc doc' values values' hreduces hok hok'
  cases hreduces with
  | array hitems =>
    obtain ⟨inner, henter, -, hvalues⟩ := list_array_eq_ok_iff.mp hok
    obtain ⟨inner', henter', -, hvalues'⟩ := list_array_eq_ok_iff.mp hok'
    obtain rfl : inner = inner' := by rw [enter_eq_sub_one henter, enter_eq_sub_one henter']
    exact h.forall₂ hitems hvalues hvalues'
  | _ => contradiction

end Decoder

section Given

variable {names : List String}

theorem exists_givenIn_of_reduceTo {R : Doc → Doc → Prop} {members members' : List (Key × Doc)}
    (h : MembersReduceTo R members members') {given' : Doc}
    (hgiven : given' ∈ Doc.givenIn names members') :
    ∃ given ∈ Doc.givenIn names members, R given given' := by
  simp only [Doc.mem_givenIn] at hgiven ⊢
  induction h with
  | nil => simp at hgiven
  | drop _ ih =>
    obtain ⟨given, ⟨key, hmem, hkey⟩, hR⟩ := ih hgiven
    exact ⟨given, ⟨key, List.mem_cons_of_mem _ hmem, hkey⟩, hR⟩
  | @keep key _ doc _ _ _ hname hdoc _ ih =>
    obtain ⟨key', hmem, hkey⟩ := hgiven
    rcases List.mem_cons.mp hmem with heq | hmem
    · obtain ⟨rfl, rfl⟩ := Prod.mk.inj heq
      rw [Key.isAmong, hname] at hkey
      exact ⟨doc, ⟨key, List.mem_cons_self, hkey⟩, hdoc⟩
    · obtain ⟨given, ⟨key, hmem, hkey⟩, hR⟩ := ih ⟨key', hmem, hkey⟩
      exact ⟨given, ⟨key, List.mem_cons_of_mem _ hmem, hkey⟩, hR⟩

theorem exists_givenAs_of_reducesTo {doc doc' : Doc} (h : doc.ReducesTo doc') {index : Nat}
    {given' : Doc} (hgiven : given' ∈ doc'.givenAs names index) :
    ∃ given ∈ doc.givenAs names index, given.ReducesTo given' := by
  cases h with
  | object hmembers => exact exists_givenIn_of_reduceTo hmembers hgiven
  | array hitems =>
    obtain ⟨given, hget, hreduces⟩ :=
      exists_getElem?_of_forall₂ hitems (Option.mem_toList.mp hgiven)
    exact ⟨given, Option.mem_toList.mpr hget, hreduces⟩
  | _ => contradiction

end Given

namespace Record

variable {α β : Type} {shape : Record α} {index : Nat} {names : List String} {decode : Decoder β}
  {get : α → β} {R : β → β → Prop} {depth : Depth} {doc doc' : Doc} {record record' : α}

theorem Sets.agrees_of_given (h : shape.Sets index names decode get) (hR : decode.Agrees R)
    (hreduces : doc.ReducesTo doc') (hok : shape.decode depth doc = .ok record)
    (hok' : shape.decode depth doc' = .ok record') (hgiven : doc'.givenAs names index ≠ []) :
    R (get record) (get record') := by
  obtain ⟨given', hgiven'⟩ := List.exists_mem_of_ne_nil _ hgiven
  obtain ⟨given, hgiven, hreduces⟩ := exists_givenAs_of_reducesTo hreduces hgiven'
  have hvalue := (h.get_of_decode hok).2 given hgiven
  have hvalue' := (h.get_of_decode hok').2 given' hgiven'
  exact hR _ _ _ _ _ hreduces hvalue hvalue'

theorem Sets.agrees (h : shape.Sets index names decode get) (hR : decode.Agrees R)
    (hreduces : doc.ReducesTo doc') (hok : shape.decode depth doc = .ok record)
    (hok' : shape.decode depth doc' = .ok record') :
    BlankOr (get shape.blank) R (get record) (get record') := by
  by_cases hgiven : doc'.givenAs names index = []
  · exact .inl ((h.get_of_decode hok').1 hgiven)
  · exact .inr (h.agrees_of_given hR hreduces hok hok' hgiven)

end Record

end FlowScript.Json
