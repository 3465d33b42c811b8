import KnownObjects.Proofs.Heap.Identity

/-!
# An address is never used twice

The frontier only goes up. An allocation takes the address at the frontier, and a collection lays all objects out from there on, so whatever comes to life is at or above every frontier that there was before. What was live once is below some frontier: when it dies, at a collection, it is dead for good. `Heap.Ages` is this relation between an earlier and a later state.

The order of the addresses never changes either. It is that of the numbers, and so that of the allocations.
-/

namespace KnownObjects.Heap

variable {h k : Heap} {handles : List Handle} {a : Address}

/-- What is live later was live earlier, or lies beyond the earlier frontier. -/
structure Ages (h k : Heap) : Prop where
  frontier : h.frontier ≤ k.frontier
  isLive : ∀ a, k.isLive a = true → h.isLive a = true ∨ h.frontier ≤ a.toNat

theorem Ages.refl (h : Heap) : Ages h h := ⟨Nat.le_refl _, fun _ => Or.inl⟩

theorem Ages.trans {l : Heap} (hhk : Ages h k) (hkl : Ages k l) : Ages h l where
  frontier := Nat.le_trans hhk.frontier hkl.frontier
  isLive a ha := by
    rcases hkl.isLive a ha with ha | ha
    · exact hhk.isLive a ha
    · exact Or.inr (Nat.le_trans hhk.frontier ha)

theorem Change.frontier_le (hchange : Change h handles k) : h.frontier ≤ k.frontier := by
  cases hchange with
  | none | defined | stored | bound | released => exact Nat.le_refl _
  | allocated => exact Nat.le_add_right _ _
  | collected => exact le_frontierAfter _ _ _

namespace WellFormed

theorem lt_frontier_of_isLive (hh : h.WellFormed) (ha : h.isLive a = true) : a.toNat < h.frontier := by
  obtain ⟨o, ho, rfl⟩ := isLive_iff.1 ha
  exact (hh.placed o ho).2

/-- A collection leaves nothing where it was. -/
theorem frontier_le_of_isLive_collect (hh : h.WellFormed) (hspace : h.collect.2.WithinSpace)
    (ha : h.collect.2.isLive a = true) : h.frontier ≤ a.toNat := by
  obtain ⟨o, ho, rfl⟩ := isLive_iff.1 ha
  obtain ⟨p, hp, rfl⟩ := List.mem_map.1 ho
  exact (hh.bounds_relocate hspace hp).1

theorem ages (hh : h.WellFormed) (hchange : Change h handles k) (hspace : k.WithinSpace) : Ages h k := by
  refine ⟨hchange.frontier_le, fun a ha => ?_⟩
  cases hchange with
  | none | defined | bound | released => exact Or.inl ha
  | stored b slot v =>
    rw [isLive_setValue] at ha
    exact Or.inl ha
  | allocated c =>
    obtain ⟨o, ho, rfl⟩ := isLive_iff.1 ha
    rcases mem_objects_instantiate ho with ho | ⟨haddress, -, -⟩
    · exact Or.inl (isLive_of_mem ho)
    · have hfrontier := (Change.allocated c : Change h _ _).frontier_le
      rw [haddress, Address.toNat_ofNat (Nat.lt_of_le_of_lt hfrontier hspace)]
      exact Or.inr (Nat.le_refl _)
  | collected => exact Or.inr (hh.frontier_le_of_isLive_collect hspace ha)

/-- Addresses are in the order of the numbers. -/
theorem toNat_lt_iff (hh : h.WellFormed) {b : Address} {m n : Nat} (ha : h.number? a = some m) (hb : h.number? b = some n) :
    a.toNat < b.toNat ↔ m < n := by
  have hordered : ∀ {a b : Address} {m n : Nat}, h.number? a = some m → h.number? b = some n → m < n →
      a.toNat < b.toNat := by
    intro a b m n ha hb hlt
    obtain ⟨o, ho, rfl⟩ := exists_of_number? ha
    obtain ⟨p, hp, rfl⟩ := exists_of_number? hb
    obtain ⟨hm, rfl⟩ := List.getElem?_eq_some_iff.1 ho
    obtain ⟨hn, rfl⟩ := List.getElem?_eq_some_iff.1 hp
    exact List.pairwise_iff_getElem.1 hh.ordered m n hm hn hlt
  refine ⟨fun hlt => ?_, hordered ha hb⟩
  by_contra hle
  rcases Nat.lt_or_eq_of_le (Nat.le_of_not_lt hle) with hgt | rfl
  · have := hordered hb ha hgt
    omega
  · rw [number?_inj ha hb] at hlt
    exact Nat.lt_irrefl _ hlt

end WellFormed

end KnownObjects.Heap
