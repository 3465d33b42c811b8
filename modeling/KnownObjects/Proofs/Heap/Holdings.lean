import KnownObjects.Proofs.Heap.Operations
import Mathlib.Data.List.Perm.Subperm

/-!
# Which handles are live

`HandleTable.Holds` says of a list that it names the live handles of a table, each once, and that the table counts as many. It is what several owners of handles need to know of a table that they share: whoever is given a handle adds it to the list, and whoever gives handles back takes them off it. The number of a handle may be used again, but never while it is on the list.
-/

namespace KnownObjects.HandleTable

structure Holds (t : HandleTable) (held : List Handle) : Prop where
  valid : t.Valid
  nodup : held.Nodup
  mem_iff : ∀ h, h ∈ held ↔ ∃ a, t.get? h = some a
  live : t.live = held.length

theorem empty_holds : empty.Holds [] where
  valid := empty_valid
  nodup := List.nodup_nil
  mem_iff h := by simp [get?, empty]
  live := rfl

namespace Valid

variable {t : HandleTable}

theorem length_free_le (ht : t.Valid) : t.free.length ≤ t.slots.size := by
  have hnodup : (t.free.map Handle.toNat).Nodup := ht.free_nodup.map fun _ _ => Handle.ext_toNat
  have hsubset : t.free.map Handle.toNat ⊆ List.range t.slots.size := by
    intro n hn
    obtain ⟨h, hfree, rfl⟩ := List.mem_map.1 hn
    rw [List.mem_range]
    exact (Array.getElem?_eq_some_iff.1 ((ht.mem_free h).1 hfree)).1
  have hlength := (hnodup.subperm hsubset).length_le
  rwa [List.length_map, List.length_range] at hlength

theorem live_insert (ht : t.Valid) (a : Address) : (t.insert a).2.live = t.live + 1 := by
  have hle := ht.length_free_le
  simp only [live, insert]
  split
  · rename_i h rest hfree
    rw [hfree, List.length_cons] at hle
    simp only [hfree, Array.size_setIfInBounds, List.length_cons]
    omega
  · rename_i hfree
    simp [hfree]

/-- What a release counts is by how much fewer handles are live. -/
theorem live_release (ht : t.Valid) (h : Handle) : (t.release h).1.toNat + (t.release h).2.live = t.live := by
  have hle := (ht.release_valid h).length_free_le
  cases hget : t.get? h with
  | none => simp [release, hget]
  | some a =>
    simp only [live, release, hget, Array.size_setIfInBounds, List.length_cons, Bool.toNat_true] at hle ⊢
    omega

theorem live_releaseAll (ht : t.Valid) (hs : List Handle) : (t.releaseAll hs).1 + (t.releaseAll hs).2.live = t.live := by
  induction hs generalizing t with
  | nil => simp [releaseAll]
  | cons h rest ih =>
    have hfirst := ht.live_release h
    have hrest := ih (ht.release_valid h)
    simp only [releaseAll]
    omega

end Valid

namespace Holds

variable {t : HandleTable} {held rest : List Handle}

theorem perm (h : t.Holds held) (hperm : held.Perm rest) : t.Holds rest where
  valid := h.valid
  nodup := hperm.nodup_iff.1 h.nodup
  mem_iff k := hperm.mem_iff.symm.trans (h.mem_iff k)
  live := h.live.trans hperm.length_eq

theorem insert (h : t.Holds held) (hroom : t.slots.size < 4294967296) {a : Address} (ha : a ≠ .null) :
    (t.insert a).2.Holds ((t.insert a).1 :: held) where
  valid := h.valid.insert_valid ha
  nodup := by
    refine List.nodup_cons.2 ⟨fun hmem => ?_, h.nodup⟩
    obtain ⟨b, hb⟩ := (h.mem_iff _).1 hmem
    rw [h.valid.get?_of_insert a hroom] at hb
    simp at hb
  mem_iff k := by
    by_cases heq : k = (t.insert a).1
    · simp [heq, h.valid.get?_insert_self ha hroom]
    · rw [Valid.get?_insert_of_ne heq, List.mem_cons, or_iff_right heq]
      exact h.mem_iff k
  live := by
    rw [h.valid.live_insert, h.live, List.length_cons]

theorem release (h : t.Holds held) (k : Handle) : (t.release k).2.Holds (held.erase k) where
  valid := h.valid.release_valid k
  nodup := h.nodup.erase k
  mem_iff j := by
    rw [h.nodup.mem_erase_iff]
    by_cases heq : j = k
    · simp [heq, Valid.get?_release_self]
    · rw [Valid.get?_release_of_ne heq, and_iff_right heq]
      exact h.mem_iff j
  live := by
    have hcount := h.valid.live_release k
    have hlive := h.live
    cases hget : t.get? k with
    | none =>
      have hmem : k ∉ held := by
        rw [h.mem_iff, hget]
        simp
      simp only [HandleTable.release, hget, Bool.toNat_false] at hcount ⊢
      rw [List.erase_of_not_mem hmem, hlive]
    | some a =>
      have hlength := List.length_erase_add_one ((h.mem_iff k).2 ⟨a, hget⟩)
      simp only [HandleTable.release, hget, Bool.toNat_true] at hcount ⊢
      omega

/-- What is given back comes off the list. Handles that are not live make no difference. -/
theorem releaseAll (h : t.Holds held) (hs : List Handle) : (t.releaseAll hs).2.Holds (held.filter fun k => k ∉ hs) := by
  induction hs generalizing t held with
  | nil => simpa [HandleTable.releaseAll] using h
  | cons k rest ih =>
    have hholds := ih (h.release k)
    have hlist : ((held.erase k).filter fun j => j ∉ rest) = held.filter fun j => j ∉ k :: rest := by
      rw [h.nodup.erase_eq_filter, List.filter_filter]
      apply List.filter_congr
      intro j _
      by_cases heq : j = k <;> simp [heq]
    rwa [hlist] at hholds

/-- An owner that gives back all its handles leaves those of the others, and as many are counted as it had. -/
theorem releaseAll_append {hs : List Handle} (h : t.Holds (hs ++ rest)) :
    (t.releaseAll hs).2.Holds rest ∧ (t.releaseAll hs).1 = hs.length := by
  have hdisjoint := List.disjoint_of_nodup_append h.nodup
  have hrest : ((hs ++ rest).filter fun k => k ∉ hs) = rest := by
    rw [List.filter_append, List.filter_eq_nil_iff.2 (by simp), List.nil_append, List.filter_eq_self]
    intro k hk
    simpa using fun hmem => hdisjoint hmem hk
  have hholds := h.releaseAll hs
  rw [hrest] at hholds
  have hcount := h.valid.live_releaseAll hs
  rw [h.live, hholds.live, List.length_append] at hcount
  exact ⟨hholds, by omega⟩

theorem mapSlots (h : t.Holds held) {f : Address → Address} (hf : ∀ a ∈ t.slots, f a = .null ↔ a = .null) :
    (t.mapSlots f).Holds held where
  valid := h.valid.mapSlots_valid hf
  nodup := h.nodup
  mem_iff k := by
    rw [h.mem_iff, Valid.get?_mapSlots hf]
    simp
  live := by
    rw [← h.live]
    simp [HandleTable.live, HandleTable.mapSlots]

end Holds

end KnownObjects.HandleTable
