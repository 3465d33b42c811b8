import KnownObjects.Heap.HandleTable
import Mathlib.Data.List.Nodup

/-!
# Live handles and free slots

A slot of the handle table either holds the address behind a live handle, or holds null and waits in the list of free slots. `HandleTable.Valid` says that the two go together: the list names every null slot, once, and nothing else. The operations keep it, and each has one lemma that says what it does to the addresses behind handles. Nothing later looks at the row of slots itself, only at `get?`.

The lemmas about `insert` do not assume that the numbers of handles suffice. Where a new slot gets a number that is already taken, the handle leads to what the slot of that number holds; only the lemma that names the inserted address asks for room.
-/

namespace KnownObjects

theorem Handle.ext_toNat {h k : Handle} (heq : h.toNat = k.toNat) : h = k := by
  rw [← Handle.ofNat_toNat h, ← Handle.ofNat_toNat k, heq]

namespace HandleTable

structure Valid (t : HandleTable) : Prop where
  free_nodup : t.free.Nodup
  mem_free : ∀ h : Handle, h ∈ t.free ↔ t.slots[h.toNat]? = some .null

theorem get?_eq_some_iff {t : HandleTable} {h : Handle} {a : Address} :
    t.get? h = some a ↔ t.slots[h.toNat]? = some a ∧ a ≠ .null := by
  simp only [get?]
  rw [Option.filter_eq_some_iff]
  simp [Address.isNull]

theorem get?_eq_of_slot_eq {t u : HandleTable} {h : Handle} (heq : t.slots[h.toNat]? = u.slots[h.toNat]?) :
    t.get? h = u.get? h := by
  simp only [get?]
  rw [heq]

theorem lt_of_get? {t : HandleTable} {h : Handle} {a : Address} (hget : t.get? h = some a) :
    h.toNat < t.slots.size := by
  have hslot := (get?_eq_some_iff.1 hget).1
  rw [Array.getElem?_eq_some_iff] at hslot
  exact hslot.1

theorem empty_valid : empty.Valid where
  free_nodup := List.nodup_nil
  mem_free h := by simp [empty]

namespace Valid

variable {t : HandleTable}

theorem not_free_of_get? (ht : t.Valid) {h : Handle} {a : Address} (hget : t.get? h = some a) : h ∉ t.free := by
  intro hfree
  obtain ⟨hslot, hne⟩ := get?_eq_some_iff.1 hget
  rw [(ht.mem_free h).1 hfree] at hslot
  exact hne (Option.some.inj hslot).symm

/-! ### Insertion -/

theorem insert_valid (ht : t.Valid) {a : Address} (ha : a ≠ .null) : (t.insert a).2.Valid := by
  simp only [insert]
  split
  · rename_i h rest hfree
    have hnodup := ht.free_nodup
    rw [hfree, List.nodup_cons] at hnodup
    have hslot := (ht.mem_free h).1 (by simp [hfree])
    refine ⟨hnodup.2, fun k => ?_⟩
    have hk := ht.mem_free k
    rw [hfree, List.mem_cons] at hk
    by_cases heq : k = h
    · subst heq
      have hlt := (Array.getElem?_eq_some_iff.1 hslot).1
      simp [hnodup.1, hlt, ha]
    · have hne : h.toNat ≠ k.toNat := fun hnat => heq (Handle.ext_toNat hnat.symm)
      simpa [Array.getElem?_setIfInBounds, hne, heq] using hk
  · rename_i hfree
    refine ⟨List.nodup_nil, fun k => ?_⟩
    have hk := ht.mem_free k
    rw [hfree] at hk
    simp only [List.not_mem_nil, false_iff] at hk ⊢
    rw [Array.getElem?_push]
    split
    · simpa using ha
    · exact hk

/-- An insertion leaves every live handle where it leads. -/
theorem get?_insert_of_get? (ht : t.Valid) {a b : Address} {h : Handle} (hget : t.get? h = some b) :
    (t.insert a).2.get? h = some b := by
  rw [← hget]
  apply get?_eq_of_slot_eq
  simp only [insert]
  split
  · rename_i k rest hfree
    have hne : k.toNat ≠ h.toNat := by
      intro hnat
      apply ht.not_free_of_get? hget
      rw [← Handle.ext_toNat hnat, hfree]
      exact List.mem_cons_self
    simp [hne]
  · have hlt := lt_of_get? hget
    rw [Array.getElem?_push, if_neg (by omega)]

/-- The new handle leads to what was inserted, if its number could be written. -/
theorem get?_insert_self (ht : t.Valid) {a : Address} (ha : a ≠ .null) (hroom : t.slots.size < 4294967296) :
    (t.insert a).2.get? (t.insert a).1 = some a := by
  rw [get?_eq_some_iff]
  refine ⟨?_, ha⟩
  simp only [insert]
  split
  · rename_i h rest hfree
    have hslot := (ht.mem_free h).1 (by simp [hfree])
    have hlt := (Array.getElem?_eq_some_iff.1 hslot).1
    simp [hlt]
  · rw [Handle.toNat_ofNat hroom]
    simp

/-- An insertion touches no other handle, live or not. -/
theorem get?_insert_of_ne {a : Address} {k : Handle} (hne : k ≠ (t.insert a).1) :
    (t.insert a).2.get? k = t.get? k := by
  apply get?_eq_of_slot_eq
  simp only [insert] at hne ⊢
  split at hne
  · rename_i h rest hfree
    have hnat : h.toNat ≠ k.toNat := fun hnat => hne (Handle.ext_toNat hnat.symm)
    simp [hnat]
  · rename_i hfree
    have hnat : k.toNat ≠ t.slots.size := by
      intro hnat
      apply hne
      rw [← hnat, Handle.ofNat_toNat]
    simp [Array.getElem?_push, hnat]

/-- The new handle led nowhere before, if its number could be written. -/
theorem get?_of_insert (ht : t.Valid) (a : Address) (hroom : t.slots.size < 4294967296) :
    t.get? (t.insert a).1 = none := by
  simp only [insert]
  split
  · rename_i h rest hfree
    have hslot := (ht.mem_free h).1 (by simp [hfree])
    simp [get?, hslot, Option.filter, Address.isNull]
  · simp only [get?]
    rw [Handle.toNat_ofNat hroom]
    simp

/-- The new handle leads somewhere, whatever number it was given: while no slot is free, every number in use is live. -/
theorem exists_get?_insert (ht : t.Valid) {a : Address} (ha : a ≠ .null) :
    ∃ b, (t.insert a).2.get? (t.insert a).1 = some b := by
  by_cases hroom : t.slots.size < 4294967296
  · exact ⟨a, ht.get?_insert_self ha hroom⟩
  · cases hfree : t.free with
    | cons h rest =>
      have hslot := (ht.mem_free h).1 (by simp [hfree])
      have hlt := (Array.getElem?_eq_some_iff.1 hslot).1
      refine ⟨a, get?_eq_some_iff.2 ⟨?_, ha⟩⟩
      simp [insert, hfree, hlt]
    | nil =>
      -- The number has wrapped around to a slot that is in use.
      have hnat : (Handle.ofNat t.slots.size).toNat < t.slots.size := by
        have hword := (Handle.ofNat t.slots.size).raw.toNat_lt
        simp only [Handle.toNat]
        omega
      have hlive : t.slots[(Handle.ofNat t.slots.size).toNat] ≠ .null := by
        intro hnull
        have hmem := (ht.mem_free (Handle.ofNat t.slots.size)).2 (by rw [Array.getElem?_eq_getElem hnat, hnull])
        rw [hfree] at hmem
        exact List.not_mem_nil hmem
      refine ⟨t.slots[(Handle.ofNat t.slots.size).toNat], get?_eq_some_iff.2 ⟨?_, hlive⟩⟩
      simp only [insert, hfree]
      rw [Array.getElem?_push, if_neg (by omega), Array.getElem?_eq_getElem hnat]

theorem slots_insert (t : HandleTable) {a b : Address} (hmem : b ∈ (t.insert a).2.slots) : b = a ∨ b ∈ t.slots := by
  unfold insert at hmem
  split at hmem
  · rcases Array.mem_or_eq_of_mem_setIfInBounds hmem with h | h
    · exact Or.inr h
    · exact Or.inl h
  · rcases Array.mem_push.1 hmem with h | h
    · exact Or.inr h
    · exact Or.inl h

/-! ### Release -/

theorem release_valid (ht : t.Valid) (h : Handle) : (t.release h).2.Valid := by
  simp only [release]
  split
  · rename_i a hget
    have hlt := lt_of_get? hget
    refine ⟨List.nodup_cons.2 ⟨ht.not_free_of_get? hget, ht.free_nodup⟩, fun k => ?_⟩
    rw [List.mem_cons, ht.mem_free k]
    by_cases heq : k = h
    · subst heq
      simp [hlt]
    · have hne : h.toNat ≠ k.toNat := fun hnat => heq (Handle.ext_toNat hnat.symm)
      simp [hne, heq]
  · exact ht

theorem get?_release_of_ne {h k : Handle} (hne : k ≠ h) : (t.release h).2.get? k = t.get? k := by
  apply get?_eq_of_slot_eq
  simp only [release]
  split
  · have hnat : h.toNat ≠ k.toNat := fun hnat => hne (Handle.ext_toNat hnat.symm)
    simp [hnat]
  · rfl

theorem get?_release_self (t : HandleTable) (h : Handle) : (t.release h).2.get? h = none := by
  simp only [release]
  split
  · rename_i a hget
    have hlt := lt_of_get? hget
    simp [get?, hlt, Option.filter, Address.isNull]
  · rename_i hget
    exact hget

theorem slots_release {h : Handle} {b : Address} (hmem : b ∈ (t.release h).2.slots) : b = .null ∨ b ∈ t.slots := by
  unfold release at hmem
  split at hmem
  · rcases Array.mem_or_eq_of_mem_setIfInBounds hmem with h | h
    · exact Or.inr h
    · exact Or.inl h
  · exact Or.inr hmem

theorem releaseAll_valid (ht : t.Valid) (hs : List Handle) : (t.releaseAll hs).2.Valid := by
  induction hs generalizing t with
  | nil => exact ht
  | cons h rest ih => exact ih (ht.release_valid h)

theorem get?_releaseAll_of_not_mem {hs : List Handle} {k : Handle} (hk : k ∉ hs) :
    (t.releaseAll hs).2.get? k = t.get? k := by
  induction hs generalizing t with
  | nil => rfl
  | cons h rest ih =>
    rw [List.mem_cons, not_or] at hk
    exact (ih hk.2).trans (get?_release_of_ne hk.1)

theorem get?_releaseAll_of_mem {hs : List Handle} {k : Handle} (hk : k ∈ hs) : (t.releaseAll hs).2.get? k = none := by
  induction hs generalizing t with
  | nil => simp at hk
  | cons h rest ih =>
    by_cases hrest : k ∈ rest
    · exact ih hrest
    · obtain rfl : k = h := (List.mem_cons.1 hk).resolve_right hrest
      exact (get?_releaseAll_of_not_mem hrest).trans (get?_release_self t k)

theorem slots_releaseAll {hs : List Handle} {b : Address} (hmem : b ∈ (t.releaseAll hs).2.slots) :
    b = .null ∨ b ∈ t.slots := by
  induction hs generalizing t with
  | nil => exact Or.inr hmem
  | cons h rest ih =>
    rcases ih hmem with hnull | hmem
    · exact Or.inl hnull
    · exact slots_release hmem

/-! ### Relocation -/

theorem mapSlots_valid (ht : t.Valid) {f : Address → Address} (hf : ∀ a ∈ t.slots, f a = .null ↔ a = .null) :
    (t.mapSlots f).Valid := by
  refine ⟨ht.free_nodup, fun h => (ht.mem_free h).trans ?_⟩
  simp only [mapSlots, Array.getElem?_map]
  cases hslot : t.slots[h.toNat]? with
  | none => simp
  | some a => simp [hf a (Array.mem_of_getElem? hslot)]

theorem get?_mapSlots {f : Address → Address} (hf : ∀ a ∈ t.slots, f a = .null ↔ a = .null) (h : Handle) :
    (t.mapSlots f).get? h = (t.get? h).map f := by
  simp only [get?, mapSlots]
  rw [Array.getElem?_map]
  cases hslot : t.slots[h.toNat]? with
  | none => rfl
  | some a =>
    by_cases hnull : a = .null
    · subst hnull
      have hfnull := (hf .null (Array.mem_of_getElem? hslot)).2 rfl
      simp [Option.filter, hfnull, Address.isNull]
    · have hfne : f a ≠ .null := fun h => hnull ((hf a (Array.mem_of_getElem? hslot)).1 h)
      simp [Option.filter, hfne, hnull, Address.isNull]

end Valid

end HandleTable

end KnownObjects
