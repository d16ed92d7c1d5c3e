import FlowScript.Proofs.Json.Members

/-! Whole documents, in which nothing is missing and nothing cannot be passed. What is read of a
text is whole if the reading came to its end, and a whole document can be passed over. -/

namespace FlowScript.Json

namespace Ending

theorem ofSkippedArray_of_isClosed (ending : Ending) (h : ending.isClosed) :
    ending.ofSkippedArray = .ok () := by
  cases ending <;> simp_all [isClosed, ofSkippedArray]

theorem ofSkippedObject_of_isClosed (ending : Ending) (h : ending.isClosed) :
    ending.ofSkippedObject = .ok () := by
  cases ending <;> simp_all [isClosed, ofSkippedObject]

end Ending

namespace Doc

mutual

def isWhole : Doc → Bool
  | .null _ _ => true
  | .bool _ _ _ => true
  | .number _ _ _ => true
  | .string _ _ _ => true
  | .array _ items ending => itemsAreWhole items && ending.isClosed
  | .object _ members ending => membersAreWhole members && ending.isClosed
  | .broken _ _ _ => false

def itemsAreWhole : List Doc → Bool
  | [] => true
  | item :: rest => item.isWhole && itemsAreWhole rest

def membersAreWhole : List (Key × Doc) → Bool
  | [] => true
  | (_, value) :: rest => value.isWhole && membersAreWhole rest

end

theorem itemsAreWhole_iff {items : List Doc} :
    itemsAreWhole items ↔ ∀ item ∈ items, item.isWhole := by
  induction items with
  | nil => simp [itemsAreWhole]
  | cons item rest ih => simp [itemsAreWhole, ih]

theorem membersAreWhole_iff {members : List (Key × Doc)} :
    membersAreWhole members ↔ ∀ member ∈ members, member.2.isWhole := by
  induction members with
  | nil => simp [membersAreWhole]
  | cons member rest ih => simp [membersAreWhole, ih]

mutual

theorem skip_of_isWhole : (doc : Doc) → doc.isWhole → doc.skip = .ok ()
  | .null _ _, _ => rfl
  | .bool _ _ _, _ => rfl
  | .number _ _ _, _ => rfl
  | .string _ _ _, _ => rfl
  | .array _ items ending, h => by
    obtain ⟨hitems, hending⟩ := Bool.and_eq_true_iff.mp h
    rw [skip, skipItems_of_areWhole items hitems]
    exact ending.ofSkippedArray_of_isClosed hending
  | .object _ members ending, h => by
    obtain ⟨hmembers, hending⟩ := Bool.and_eq_true_iff.mp h
    rw [skip, skipMembers_of_areWhole members hmembers]
    exact ending.ofSkippedObject_of_isClosed hending
  | .broken _ _ _, h => by simp [isWhole] at h

theorem skipItems_of_areWhole : (items : List Doc) → itemsAreWhole items →
    skipItems items = .ok ()
  | [], _ => rfl
  | item :: rest, h => by
    obtain ⟨hitem, hrest⟩ := Bool.and_eq_true_iff.mp h
    rw [skipItems, skip_of_isWhole item hitem, skipItems_of_areWhole rest hrest]
    rfl

theorem skipMembers_of_areWhole : (members : List (Key × Doc)) → membersAreWhole members →
    skipMembers members = .ok ()
  | [], _ => rfl
  | (_, value) :: rest, h => by
    obtain ⟨hvalue, hrest⟩ := Bool.and_eq_true_iff.mp h
    rw [skipMembers, skip_of_isWhole value hvalue, skipMembers_of_areWhole rest hrest]
    rfl

end

section Reading

theorem isWhole_of_readWord {cur stop : Cursor} {word : String} {value : Nat → Doc} {doc : Doc}
    (hvalue : ∀ n, (value n).isWhole) (h : readWord cur word value = (doc, some stop)) :
    doc.isWhole := by
  unfold readWord fail at h
  split at h
  · simp at h
  · obtain rfl := (Prod.mk.inj h).1
    exact hvalue _

theorem isWhole_of_readNumber {cur stop : Cursor} {negative : Bool} {doc : Doc}
    (h : readNumber cur negative = (doc, some stop)) : doc.isWhole := by
  unfold readNumber fail at h
  generalize (if negative then cur.next else cur) = digits at h
  dsimp only at h
  split at h
  · obtain rfl := (Prod.mk.inj h).1
    rfl
  · simp at h
  · simp at h

theorem isWhole_of_readText {cur stop : Cursor} {doc : Doc}
    (h : readText cur = (doc, some stop)) : doc.isWhole := by
  unfold readText fail at h
  split at h
  · obtain rfl := (Prod.mk.inj h).1
    rfl
  · simp at h
  · simp at h

def ReadsWhole (fuel : Nat) : Prop :=
  (∀ cur doc stop, read fuel cur = (doc, some stop) → doc.isWhole) ∧
  (∀ gap cur items ending stop, readItems fuel gap cur = (items, ending, some stop) →
    itemsAreWhole items ∧ ending.isClosed) ∧
  ∀ gap cur members ending stop, readMembers fuel gap cur = (members, ending, some stop) →
    membersAreWhole members ∧ ending.isClosed

theorem isWhole_of_read_succ {fuel : Nat} (ih : ReadsWhole fuel) {cur stop : Cursor} {doc : Doc}
    (h : read (fuel + 1) cur = (doc, some stop)) : doc.isWhole := by
  obtain ⟨-, hitems, hmembers⟩ := ih
  unfold read at h
  dsimp only at h
  split at h
  · simp [fail] at h
  · exact isWhole_of_readWord (fun _ => rfl) h
  · exact isWhole_of_readWord (fun _ => rfl) h
  · exact isWhole_of_readWord (fun _ => rfl) h
  · exact isWhole_of_readNumber h
  · exact isWhole_of_readText h
  · obtain ⟨rfl, hstop⟩ := Prod.mk.inj h
    obtain ⟨hwhole, hclosed⟩ := hitems _ _ _ _ _ (Prod.ext rfl (Prod.ext rfl hstop))
    exact Bool.and_eq_true_iff.mpr ⟨hwhole, hclosed⟩
  · obtain ⟨rfl, hstop⟩ := Prod.mk.inj h
    obtain ⟨hwhole, hclosed⟩ := hmembers _ _ _ _ _ (Prod.ext rfl (Prod.ext rfl hstop))
    exact Bool.and_eq_true_iff.mpr ⟨hwhole, hclosed⟩
  · split at h
    · exact isWhole_of_readNumber h
    · simp [fail] at h

theorem areWhole_of_readItems_succ {fuel : Nat} (ih : ReadsWhole fuel) {gap : Gap}
    {cur stop : Cursor} {items : List Doc} {ending : Ending}
    (h : readItems (fuel + 1) gap cur = (items, ending, some stop)) :
    itemsAreWhole items ∧ ending.isClosed := by
  obtain ⟨hread, hitems, -⟩ := ih
  unfold readItems at h
  dsimp only at h
  split at h
  · simp at h
  · simp at h
  · simp only [Prod.mk.injEq, Option.some.injEq] at h
    obtain ⟨rfl, rfl, -⟩ := h
    exact ⟨rfl, rfl⟩
  · exact hitems _ _ _ _ _ h
  · simp at h
  · split at h
    · simp at h
    · next item rest hitem =>
      simp only [Prod.mk.injEq] at h
      obtain ⟨rfl, rfl, hstop⟩ := h
      obtain ⟨hwhole, hclosed⟩ := hitems _ _ _ _ _ (Prod.ext rfl (Prod.ext rfl hstop))
      exact ⟨Bool.and_eq_true_iff.mpr ⟨hread _ _ _ hitem, hwhole⟩, hclosed⟩

theorem areWhole_of_readMembers_succ {fuel : Nat} (ih : ReadsWhole fuel) {gap : Gap}
    {cur stop : Cursor} {members : List (Key × Doc)} {ending : Ending}
    (h : readMembers (fuel + 1) gap cur = (members, ending, some stop)) :
    membersAreWhole members ∧ ending.isClosed := by
  obtain ⟨hread, -, hmembers⟩ := ih
  unfold readMembers at h
  dsimp only at h
  split at h
  case h_1 => exact hmembers _ _ _ _ _ h
  case h_2 => simp at h
  case h_3 =>
    simp only [Prod.mk.injEq, Option.some.injEq] at h
    obtain ⟨rfl, rfl, -⟩ := h
    exact ⟨rfl, rfl⟩
  -- A member reads the same behind a bracket and behind a comma.
  case h_4 | h_5 =>
    split at h
    · simp at h
    · split at h
      · simp at h
      · split at h
        · simp at h
        · next value rest hvalue =>
          simp only [Prod.mk.injEq] at h
          obtain ⟨rfl, rfl, hstop⟩ := h
          obtain ⟨hwhole, hclosed⟩ := hmembers _ _ _ _ _ (Prod.ext rfl (Prod.ext rfl hstop))
          exact ⟨Bool.and_eq_true_iff.mpr ⟨hread _ _ _ hvalue, hwhole⟩, hclosed⟩
  case h_6 => simp at h

theorem readsWhole (fuel : Nat) : ReadsWhole fuel := by
  induction fuel with
  | zero => simp [ReadsWhole, read, readItems, readMembers, fail]
  | succ fuel ih =>
    exact ⟨fun _ _ _ => isWhole_of_read_succ ih, fun _ _ _ _ _ => areWhole_of_readItems_succ ih,
      fun _ _ _ _ _ => areWhole_of_readMembers_succ ih⟩

theorem ofText_eq (text : String) :
    ofText text =
      let (doc, stop) := read (2 * text.toList.length + 2) ⟨0, text.toList⟩
      (doc, stop.map Cursor.skipSpace) := by
  rw [String.length_toList]
  rfl

def IsText (text : String) : Prop :=
  ∃ stop, (ofText text).2 = some stop ∧ stop.rest = []

theorem isWhole_ofText {text : String} {stop : Cursor} (h : (ofText text).2 = some stop) :
    (ofText text).1.isWhole := by
  have hread := (readsWhole (2 * text.length + 2)).1 (Cursor.ofText text)
  unfold ofText at h ⊢
  generalize read (2 * text.length + 2) (Cursor.ofText text) = step at hread h ⊢
  obtain ⟨behind, hbehind, -⟩ := Option.map_eq_some_iff.mp h
  exact hread _ behind (Prod.ext rfl hbehind)

end Reading

end Doc

end FlowScript.Json
