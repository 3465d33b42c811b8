import KnownObjects.Slot

/-!
# The row of slots

A row `Fits` when the index after its last one is not the mark of an unknown object. Every row that starts empty and grows by `append?` fits, and in a row that fits indices and places agree: index 0 is null, and index `k + 1` stands for the handle at place `k`.
-/

namespace KnownObjects

namespace Index

@[simp] theorem toNat_unknown : unknown.toNat = 4294967295 := rfl

@[simp] theorem toNat_null : null.toNat = 0 := rfl

theorem isUnknown_iff {i : Index} : i.isUnknown = true ↔ i.toNat = 4294967295 := by
  simp only [isUnknown]
  rw [beq_iff_eq]
  exact ⟨fun heq => heq ▸ rfl, fun heq => ext_toNat heq⟩

theorem isUnknown_eq_false {i : Index} (hi : i.toNat < 4294967295) : i.isUnknown = false := by
  rw [Bool.eq_false_iff, Ne, isUnknown_iff]
  omega

end Index

namespace SlotStore

/-- The size of the row is not the mark of an unknown object. -/
def Fits (s : SlotStore) : Prop := s.handles.length + 1 < 4294967295

theorem empty_fits : empty.Fits := by
  simp only [Fits]
  decide

theorem Fits.toNat_size {s : SlotStore} (hs : s.Fits) : s.size.toNat = s.handles.length + 1 := by
  unfold Fits at hs
  exact Index.toNat_ofNat (by omega)

/-- The row takes a handle unless the size after that would be the mark of an unknown object. -/
theorem Fits.append? {s : SlotStore} (hs : s.Fits) (h : Handle) :
    s.append? h = if s.handles.length + 2 < 4294967295 then some (s.size, ⟨s.handles ++ [h]⟩) else none := by
  simp only [SlotStore.append?]
  rw [hs.toNat_size, Index.toNat_unknown]
  unfold Fits at hs
  by_cases hroom : s.handles.length + 2 < 4294967295
  · rw [if_neg (by omega), if_pos hroom]
  · rw [if_pos (by omega), if_neg hroom]

theorem Fits.append?_eq_some_iff {s t : SlotStore} (hs : s.Fits) {h : Handle} {i : Index} :
    s.append? h = some (i, t) ↔ s.handles.length + 2 < 4294967295 ∧ i = s.size ∧ t = ⟨s.handles ++ [h]⟩ := by
  rw [hs.append?]
  split
  · rename_i hroom
    simp [hroom, eq_comm]
  · rename_i hroom
    simp [hroom]

theorem Fits.of_append? {s t : SlotStore} (hs : s.Fits) {h : Handle} {i : Index} (happend : s.append? h = some (i, t)) :
    t.Fits := by
  obtain ⟨hroom, -, rfl⟩ := hs.append?_eq_some_iff.1 happend
  simp only [Fits]
  simp only [List.length_append, List.length_singleton]
  omega

@[simp] theorem get?_null (s : SlotStore) : s.get? .null = some .null := rfl

theorem Fits.get?_ofNat_succ {s : SlotStore} (hs : s.Fits) {k : Nat} {h : Handle} (hk : s.handles[k]? = some h) :
    s.get? (.ofNat (k + 1)) = some (.ref h) := by
  have hlt := (List.getElem?_eq_some_iff.1 hk).1
  unfold Fits at hs
  have hnat : (Index.ofNat (k + 1)).toNat = k + 1 := Index.toNat_ofNat (by omega)
  have hknown : (Index.ofNat (k + 1)).isUnknown = false := Index.isUnknown_eq_false (by omega)
  simp only [SlotStore.get?, toList]
  rw [hknown, hnat]
  simp [hk]

theorem getElem?_of_get? {s : SlotStore} {i : Index} {h : Handle} (hget : s.get? i = some (.ref h)) :
    ∃ k, i.toNat = k + 1 ∧ s.handles[k]? = some h := by
  unfold SlotStore.get? toList at hget
  split at hget
  · simp at hget
  · cases hi : i.toNat with
    | zero => simp [hi] at hget
    | succ k => exact ⟨k, rfl, by simpa [hi] using hget⟩

theorem Fits.get?_eq_ref_iff {s : SlotStore} (hs : s.Fits) {i : Index} {h : Handle} :
    s.get? i = some (.ref h) ↔ ∃ k, i.toNat = k + 1 ∧ s.handles[k]? = some h := by
  refine ⟨getElem?_of_get?, ?_⟩
  rintro ⟨k, hi, hk⟩
  rw [← Index.ofNat_toNat i, hi]
  exact hs.get?_ofNat_succ hk

theorem mem_refs_of_get? {s : SlotStore} {i : Index} {h : Handle} (hget : s.get? i = some (.ref h)) : (i, h) ∈ s.refs := by
  obtain ⟨k, hi, hk⟩ := getElem?_of_get? hget
  refine List.mem_map.2 ⟨(h, k + 1), ?_, by rw [← hi, Index.ofNat_toNat]⟩
  exact List.mk_mem_zipIdx_iff_le_and_getElem?_sub.2 ⟨by omega, by simpa using hk⟩

theorem Fits.mem_refs_iff {s : SlotStore} (hs : s.Fits) {i : Index} {h : Handle} :
    (i, h) ∈ s.refs ↔ s.get? i = some (.ref h) := by
  refine ⟨fun hmem => ?_, mem_refs_of_get?⟩
  obtain ⟨⟨handle, n⟩, hentry, heq⟩ := List.mem_map.1 hmem
  obtain ⟨rfl, rfl⟩ := Prod.mk.inj heq
  obtain ⟨hle, hk⟩ := List.mk_mem_zipIdx_iff_le_and_getElem?_sub.1 hentry
  obtain ⟨k, rfl⟩ := Nat.exists_eq_add_of_le' hle
  exact hs.get?_ofNat_succ hk

theorem Fits.get?_eq_none_iff {s : SlotStore} (hs : s.Fits) {i : Index} : s.get? i = none ↔ s.size.toNat ≤ i.toNat := by
  rw [hs.toNat_size]
  unfold Fits at hs
  simp only [SlotStore.get?, toList]
  by_cases hknown : i.isUnknown = true
  · have hnat := Index.isUnknown_iff.1 hknown
    simp only [hknown, if_true, true_iff]
    omega
  · simp only [hknown, Bool.false_eq_true, if_false, List.getElem?_eq_none_iff, List.length_cons, List.length_map]

theorem Fits.lt_of_get? {s : SlotStore} (hs : s.Fits) {i : Index} {slot : Slot} (h : s.get? i = some slot) :
    i.toNat < s.size.toNat := by
  apply Nat.lt_of_not_le
  intro hbeyond
  rw [hs.get?_eq_none_iff.2 hbeyond] at h
  simp at h

theorem Fits.of_prefix {s t : SlotStore} (ht : t.Fits) (hinitial : s.handles <+: t.handles) : s.Fits := by
  have hlength := hinitial.length_le
  unfold Fits at *
  omega

theorem Fits.get?_of_prefix {s t : SlotStore} (hs : s.Fits) (hinitial : s.handles <+: t.handles) {i : Index}
    (hi : i.toNat < s.size.toNat) : t.get? i = s.get? i := by
  rw [hs.toNat_size] at hi
  obtain ⟨rest, hrest⟩ := hinitial
  simp only [SlotStore.get?, toList]
  rw [← hrest, List.map_append, ← List.cons_append, List.getElem?_append_left (by simpa using hi)]

end SlotStore

end KnownObjects
