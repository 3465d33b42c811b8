import KnownObjects.Proofs.Heap.Identity
import KnownObjects.Proofs.Table.Service

/-!
# The objects that a table knows

A table holds handles and compares addresses, but what it stands for is a list of objects. `Site.Knows` relates the two: the handles of the slots lead, in order, to the objects whose numbers are listed. Changes of the heap that give none of these handles back keep the list, whatever they do to addresses, and a lookup searches the list as it would search for a number.
-/

namespace KnownObjects.Site

structure Knows (s : Site) (known : List Nat) : Prop where
  heap : s.heap.WellFormed
  native : s.heap.id = s.table.heapId
  fits : s.table.slots.Fits
  numbers : s.table.slots.handles.map s.heap.numberOf? = known.map some

/-- The search meets the objects in the order of the list. The list of numbers starts at the index `first`. -/
theorem search_eq {heap : Heap} {handles : List Handle} {known : List Nat}
    (hnumbers : handles.map heap.numberOf? = known.map some) (a : Address) (first : Nat) :
    Table.search heap a ((handles.zipIdx first).map fun entry => (Index.ofNat entry.2, entry.1)) =
      .ok (((heap.number? a).bind fun n => known.idxOf? n).map fun k => Index.ofNat (k + first)) := by
  have hplace : known.findIdx? (fun n => heap.number? a == some n) =
      (heap.number? a).bind fun n => known.idxOf? n := by
    cases heap.number? a with
    | none => simp
    | some m =>
      rw [Option.bind_some]
      show known.findIdx? (fun n => some m == some n) = known.findIdx? (fun n => n == m)
      congr 1
      funext n
      rw [Option.some_beq_some, BEq.comm]
  rw [← hplace]
  refine search_eq_findIdx? ?_ first
  rw [← List.forall₂_eq_eq_eq, List.forall₂_map_left_iff, List.forall₂_map_right_iff] at hnumbers
  refine hnumbers.imp fun h n hn => ?_
  obtain ⟨b, hget, hb⟩ := Option.bind_eq_some_iff.1 hn
  refine ⟨b, Heap.resolve_eq_ok_iff.2 hget, ?_⟩
  rw [beq_iff_eq]
  constructor
  · intro ha
    exact Heap.number?_inj hb ha
  · rintro rfl
    exact hb

namespace Knows

variable {s : Site} {known : List Nat}

theorem length_eq (hs : s.Knows known) : s.table.slots.handles.length = known.length := by
  have hlength := congrArg List.length hs.numbers
  simpa using hlength

theorem find_eq (hs : s.Knows known) (a : Address) :
    s.table.find s.heap a =
      .ok (((s.heap.number? a).bind fun n => known.idxOf? n).map fun k => Index.ofNat (k + 1)) :=
  search_eq hs.numbers a 1

/-- The table keeps its list while the heap changes, if none of its handles is given back. -/
theorem change (hs : s.Knows known) {handles : List Handle} {heap : Heap} (hchange : Heap.Change s.heap handles heap)
    (hspace : heap.WithinSpace) (hspared : ∀ h ∈ s.table.slots.handles, h ∉ handles) :
    Knows { s with heap } known := by
  refine ⟨hs.heap.change hchange hspace, ?_, hs.fits, ?_⟩
  · rw [hchange.id_eq]
    exact hs.native
  · rw [← hs.numbers]
    apply List.map_congr_left
    intro h hh
    have hmem : s.heap.numberOf? h ∈ known.map some := hs.numbers ▸ List.mem_map_of_mem hh
    obtain ⟨n, -, hn⟩ := List.mem_map.1 hmem
    rw [← hn]
    exact hs.heap.numberOf?_change hchange hspace (hspared h hh) hn.symm

/-- A further handle changes nothing for the handles that the table has. -/
theorem withHandle (hs : s.Knows known) {a : Address} (ha : s.heap.isLive a = true) :
    Knows { s with heap := s.heap.withHandle a } known := by
  refine ⟨hs.heap.withHandle ha, hs.native, hs.fits, ?_⟩
  rw [← hs.numbers]
  apply List.map_congr_left
  intro h hh
  have hmem : s.heap.numberOf? h ∈ known.map some := hs.numbers ▸ List.mem_map_of_mem hh
  obtain ⟨m, -, hm⟩ := List.mem_map.1 hmem
  obtain ⟨c, hget, hnumber⟩ := Option.bind_eq_some_iff.1 hm.symm
  rw [← hm]
  exact Option.bind_eq_some_iff.2 ⟨c, hs.heap.handles_valid.get?_insert_of_get? hget, hnumber⟩

/-- A new slot adds one object to the list: the one that it was made for, if its handle could be numbered. -/
theorem learnt (hs : s.Knows known) {a : Address} (ha : s.heap.isLive a = true) {i : Index} {slots : SlotStore}
    (happend : s.table.slots.append? (s.heap.handles.insert a).1 = some (i, slots)) :
    ∃ n, Knows { heap := s.heap.withHandle a, table := { s.table with slots } } (known ++ [n]) ∧
      (s.heap.handles.slots.size < 4294967296 → s.heap.number? a = some n) := by
  have hmade := hs.withHandle ha
  obtain ⟨b, hb⟩ := hs.heap.handles_valid.exists_get?_insert (hs.heap.ne_null_of_isLive ha)
  obtain ⟨n, hn⟩ := hmade.heap.exists_numberOf? hb
  have hfits := hs.fits.of_append? happend
  obtain ⟨-, -, rfl⟩ := hs.fits.append?_eq_some_iff.1 happend
  refine ⟨n, ⟨hmade.heap, hs.native, hfits, ?_⟩, fun hroom => ?_⟩
  · rw [List.map_append, List.map_append, hmade.numbers, List.map_singleton, List.map_singleton, hn]
  · rw [← hs.heap.numberOf?_withHandle hroom ha]
    exact hn

/-- The table goes on knowing objects through a lookup of null or of a live one, which can only fail for want of room. -/
theorem looked (hs : s.Knows known) {a : Address} (ha : a = .null ∨ s.heap.isLive a = true) {r : Except Fatal Index}
    {t : Site} (h : Looked a s r t) : (∃ known, t.Knows known) ∧ ∀ f, r = .error f → f = .tableFull := by
  have hfind := hs.find_eq a
  cases h with
  | null | known => exact ⟨⟨known, hs⟩, by simp⟩
  | foreign _ hforeign => exact absurd hs.native hforeign
  | unreadable _ herror =>
    rw [hfind] at herror
    simp at herror
  | stale hne _ hstale =>
    rw [ha.resolve_left hne] at hstale
    simp at hstale
  | full _ _ hlive => exact ⟨⟨known, hs.withHandle hlive⟩, by rintro f ⟨⟩; rfl⟩
  | learnt _ _ hlive happend =>
    obtain ⟨n, hknows, -⟩ := hs.learnt hlive happend
    exact ⟨⟨_, hknows⟩, by simp⟩

/-- A lookup that only asks gives the place in the list. -/
theorem existingIndexOf (hs : s.Knows known) (a : Address) :
    (existingIndexOf a).Ends s (.ok (if a = .null then .null
      else (((s.heap.number? a).bind fun n => known.idxOf? n).map fun k => Index.ofNat (k + 1)).getD .unknown)) s := by
  have hends := existingIndexOf_ends a s
  rw [if_pos hs.native, hs.find_eq a] at hends
  by_cases hnull : a = .null
  · rwa [if_pos hnull] at hends ⊢
  · rwa [if_neg hnull] at hends ⊢

end Knows

end KnownObjects.Site
