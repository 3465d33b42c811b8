import KnownObjects.Proofs.Heap.Holdings
import Mathlib.Data.Finset.Card
import Mathlib.Data.List.Dedup

/-!
# The handle table as an allocator

A tally is kept by somebody who sees only what is asked of a heap and what it answers: which handles are out, which were given back and wait to be handed out again, the latest first, and how many were out at once at most. It knows neither the row of slots nor the list of free ones.

The main statement is that the tally is all there is to know. The free list is what the tally says was given back, the row is as long as the most handles that were ever out, and from the tally alone it follows which number the next new handle gets and what a release counts. A free slot is marked by null, and null is also where no object lies, so a collection neither frees a slot nor fills one.
-/

namespace KnownObjects

structure Tally where
  live : List Handle
  /-- What was given back and has not been handed out again, the latest first. -/
  returned : List Handle
  /-- The most handles that were out at once. -/
  peak : Nat
deriving DecidableEq

namespace Tally

def empty : Tally := ⟨[], [], 0⟩

def handOut (t : Tally) (k : Handle) : Tally :=
  ⟨k :: t.live, t.returned.erase k, max t.peak (t.live.length + 1)⟩

/-- A handle that is not out cannot be given back. -/
def giveBack (t : Tally) (k : Handle) : Tally :=
  if k ∈ t.live then { t with live := t.live.erase k, returned := k :: t.returned } else t

/-- What changes when an operation was asked for and answered. -/
def next (t : Tally) : Heap.Operation → Heap.Answer → Tally
  | .release handles, _ => handles.foldl giveBack t
  | _, .handle k => t.handOut k
  | _, _ => t

end Tally

namespace HandleTable

variable {t : HandleTable} {tally : Tally}

/-- A table is as its tally says. -/
structure Counted (t : HandleTable) (tally : Tally) : Prop where
  holds : t.Holds tally.live
  free : t.free = tally.returned
  size : t.slots.size = tally.peak

theorem empty_counted : empty.Counted .empty := ⟨empty_holds, rfl, rfl⟩

namespace Counted

/-- The live handles and the free slots make up the row. -/
theorem length_add_length (h : t.Counted tally) : tally.live.length + tally.returned.length = tally.peak := by
  have hlive := h.holds.live
  have hle := h.holds.valid.length_free_le
  simp only [HandleTable.live, h.free, h.size] at hlive hle
  omega

theorem insert (h : t.Counted tally) (hroom : t.slots.size < 4294967296) {a : Address} (ha : a ≠ .null) :
    (t.insert a).2.Counted (tally.handOut (t.insert a).1) := by
  have hlength := h.length_add_length
  refine ⟨h.holds.insert hroom ha, ?_, ?_⟩
  · show (t.insert a).2.free = tally.returned.erase (t.insert a).1
    rw [← h.free]
    simp only [HandleTable.insert]
    split
    · rename_i k rest hfree
      rw [hfree, List.erase_cons_head]
    · rename_i hfree
      rw [hfree, List.erase_nil]
  · show (t.insert a).2.slots.size = max tally.peak (tally.live.length + 1)
    simp only [HandleTable.insert]
    split
    · rename_i k rest hfree
      have hreturned : tally.returned.length = rest.length + 1 := by rw [← h.free, hfree, List.length_cons]
      rw [Array.size_setIfInBounds, h.size]
      omega
    · rename_i hfree
      have hreturned : tally.returned.length = 0 := by rw [← h.free, hfree, List.length_nil]
      rw [Array.size_push, h.size]
      omega

theorem release (h : t.Counted tally) (k : Handle) : (t.release k).2.Counted (tally.giveBack k) := by
  have hlive := h.holds.mem_iff k
  cases hget : t.get? k with
  | none =>
    have hout : k ∉ tally.live := by
      rw [hlive, hget]
      simp
    rw [Tally.giveBack, if_neg hout]
    simpa only [HandleTable.release, hget] using h
  | some a =>
    have hholds := h.holds.release k
    rw [Tally.giveBack, if_pos (hlive.2 ⟨a, hget⟩)]
    simp only [HandleTable.release, hget] at hholds ⊢
    refine ⟨hholds, ?_, ?_⟩
    · rw [h.free]
    · rw [Array.size_setIfInBounds, h.size]

theorem releaseAll (h : t.Counted tally) (handles : List Handle) :
    (t.releaseAll handles).2.Counted (handles.foldl Tally.giveBack tally) := by
  induction handles generalizing t tally with
  | nil => exact h
  | cons k rest ih => exact ih (h.release k)

theorem mapSlots (h : t.Counted tally) {f : Address → Address} (hf : ∀ a ∈ t.slots, f a = .null ↔ a = .null) :
    (t.mapSlots f).Counted tally where
  holds := h.holds.mapSlots hf
  free := h.free
  size := by
    rw [← h.size]
    exact Array.size_map

/-- An insertion takes the handle that was given back last. Only if there is none does the row get longer. -/
theorem insert_eq (h : t.Counted tally) (a : Address) : (t.insert a).1 = tally.returned.head?.getD (.ofNat tally.peak) ∧
    (t.insert a).2.slots.size = if tally.returned = [] then tally.peak + 1 else tally.peak := by
  rw [← h.free, ← h.size]
  simp only [HandleTable.insert]
  split
  · rename_i k rest hfree
    simp [hfree]
  · rename_i hfree
    simp [hfree]

end Counted

/-- A release counts each live handle on its list once. -/
theorem Holds.releaseAll_fst {held : List Handle} (h : t.Holds held) (handles : List Handle) :
    (t.releaseAll handles).1 = (handles.toFinset.filter (· ∈ held)).card := by
  have hcount := h.valid.live_releaseAll handles
  rw [h.live, (h.releaseAll handles).live] at hcount
  have hgone : (held.filter fun k => k ∈ handles).toFinset = handles.toFinset.filter (· ∈ held) := by
    ext k
    simp [and_comm]
  have hsplit := held.length_eq_length_filter_add fun k => k ∈ handles
  rw [← hgone, List.toFinset_card_of_nodup (h.nodup.filter _)]
  simp only [decide_not] at hcount
  omega

end HandleTable

namespace Heap

/-- The heaps that operations lead to, each with its tally. Addresses and handles stay within their words. -/
inductive Tallied : Heap → Tally → Prop
  | created {id : HeapId} {settings : Settings} {h : Heap} : create id settings = .ok h → Tallied h .empty
  | performed {h : Heap} {t : Tally} (operation : Operation) : Tallied h t →
    (h.perform operation).2.WithinSpace → (h.perform operation).2.handles.slots.size < 4294967296 →
    Tallied (h.perform operation).2 (t.next operation (h.perform operation).1)

/-- The handles of a heap are as its tally says. -/
structure Exact (h : Heap) (t : Tally) : Prop where
  free_nodup : h.handles.free.Nodup
  null_iff : ∀ n : Nat, h.handles.slots[n]? = some .null ↔ ∃ k ∈ h.handles.free, k.toNat = n
  live_nodup : t.live.Nodup
  live_iff : ∀ k, k ∈ t.live ↔ ∃ a, h.resolve k = .ok a
  count : h.handles.live = t.live.length
  size : h.handles.slots.size = t.peak
  /-- A new handle is not in use, and its number is a fresh one only if none waits to be used again. -/
  issued : ∀ operation k, (h.perform operation).1 = .handle k → k ∉ t.live ∧
    k = t.returned.head?.getD (.ofNat t.peak) ∧
    (h.perform operation).2.handles.slots.size = if t.returned = [] then t.peak + 1 else t.peak
  released : ∀ handles, (h.perform (.release handles)).1 = .count (handles.toFinset.filter (· ∈ t.live)).card ∧
    ∀ k, (h.perform (.release handles)).2.resolve k = if k ∈ handles then .error (.invalidHandle k) else h.resolve k

variable {h : Heap} {t : Tally}

/-- A handle is new only because an address was bound to it, and nothing else becomes of the table. -/
theorem exists_insert_of_perform {operation : Operation} {k : Handle} (hanswer : (h.perform operation).1 = .handle k) :
    ∃ a, k = (h.handles.insert a).1 ∧ (h.perform operation).2.handles = (h.handles.insert a).2 := by
  cases operation with
  | define | collect | release => cases hanswer
  | allocate classId =>
    simp only [perform, allocate] at hanswer ⊢
    cases hclass : h.classes[classId]? with
    | none =>
      rw [hclass] at hanswer
      cases hanswer
    | some c =>
      rw [hclass] at hanswer
      exact ⟨_, (Answer.handle.inj hanswer).symm, rfl⟩
  | store holder field value =>
    simp only [perform] at hanswer
    split at hanswer <;> cases hanswer
  | newHandle object =>
    simp only [perform] at hanswer ⊢
    cases hnew : h.newHandle object with
    | error e =>
      rw [hnew] at hanswer
      cases hanswer
    | ok made =>
      rw [hnew] at hanswer
      obtain ⟨-, hhandle, hheap⟩ := newHandle_eq_ok_iff.1 hnew
      refine ⟨object, (Answer.handle.inj hanswer).symm.trans hhandle, ?_⟩
      simp only
      rw [hheap]
      rfl

theorem resolve_release (h : Heap) (handles : List Handle) (k : Handle) :
    (h.release handles).2.resolve k = if k ∈ handles then .error (.invalidHandle k) else h.resolve k := by
  simp only [resolve, release]
  by_cases hmem : k ∈ handles
  · rw [HandleTable.Valid.get?_releaseAll_of_mem hmem, if_pos hmem]
  · rw [HandleTable.Valid.get?_releaseAll_of_not_mem hmem, if_neg hmem]

/-- What an operation does to the handles is what the tally makes of its answer. -/
theorem counted_perform (hh : h.WellFormed) (ht : h.handles.Counted t) (hroom : h.handles.slots.size < 4294967296)
    (operation : Operation) (hspace : (h.perform operation).2.WithinSpace) :
    (h.perform operation).2.handles.Counted (t.next operation (h.perform operation).1) := by
  cases operation with
  | define c => exact ht
  | allocate classId =>
    simp only [perform, allocate] at hspace ⊢
    cases hclass : h.classes[classId]? with
    | none => exact ht
    | some c =>
      rw [hclass] at hspace
      have hafter := hh.instantiate c hspace
      exact ht.insert hroom (hafter.ne_null_of_isLive (isLive_instantiate_self h c))
  | store holder field value =>
    simp only [perform]
    cases hstore : h.store holder field value with
    | error e => exact ht
    | ok heap =>
      obtain ⟨a, slot, v, rfl, -⟩ := store_eq_ok hstore
      exact ht
  | collect => exact ht.mapSlots fun a ha => hh.relocate_eq_null_iff hspace (hh.handles_live a ha)
  | newHandle object =>
    simp only [perform]
    cases hnew : h.newHandle object with
    | error e => exact ht
    | ok made =>
      obtain ⟨k, heap⟩ := made
      obtain ⟨hlive, rfl, rfl⟩ := newHandle_eq_ok_iff.1 hnew
      exact ht.insert hroom (hh.ne_null_of_isLive hlive)
  | release handles => exact ht.releaseAll handles

theorem Tallied.counted (hrun : h.Tallied t) :
    h.WellFormed ∧ h.handles.Counted t ∧ h.handles.slots.size < 4294967296 := by
  induction hrun with
  | created hcreate =>
    refine ⟨create_wellFormed hcreate, ?_⟩
    obtain ⟨-, rfl⟩ := create_eq_ok_iff.1 hcreate
    refine ⟨HandleTable.empty_counted, ?_⟩
    show (0 : Nat) < 4294967296
    decide
  | performed operation _ hspace hroom ih =>
    obtain ⟨hh, ht, hbefore⟩ := ih
    exact ⟨hh.change (perform_change _ operation) hspace, counted_perform hh ht hbefore operation hspace, hroom⟩

/-- Whatever is asked of a heap, its handles are as the answers say. -/
theorem exact_of_tallied (hrun : h.Tallied t) : h.Exact t := by
  obtain ⟨-, ht, hroom⟩ := hrun.counted
  have hvalid := ht.holds.valid
  constructor
  case free_nodup => exact hvalid.free_nodup
  case null_iff =>
    intro n
    constructor
    · intro hnull
      have hlt := (Array.getElem?_eq_some_iff.1 hnull).1
      have hnumber : (Handle.ofNat n).toNat = n := Handle.toNat_ofNat (by omega)
      exact ⟨.ofNat n, (hvalid.mem_free _).2 (by rw [hnumber, hnull]), hnumber⟩
    · rintro ⟨k, hk, rfl⟩
      exact (hvalid.mem_free k).1 hk
  case live_nodup => exact ht.holds.nodup
  case live_iff =>
    intro k
    simp only [resolve_eq_ok_iff]
    exact ht.holds.mem_iff k
  case count => exact ht.holds.live
  case size => exact ht.size
  case issued =>
    intro operation k hanswer
    obtain ⟨a, rfl, htable⟩ := exists_insert_of_perform hanswer
    rw [htable]
    refine ⟨fun hmem => ?_, ht.insert_eq a⟩
    obtain ⟨b, hb⟩ := (ht.holds.mem_iff _).1 hmem
    rw [hvalid.get?_of_insert a hroom] at hb
    cases hb
  case released =>
    intro handles
    exact ⟨congrArg Answer.count (ht.holds.releaseAll_fst handles), resolve_release h handles⟩

/-- Three handles, of which two are given back, one of them twice and next to one that was never made. After a collection both are handed out again, in the opposite order, and only then a new one. -/
theorem exact_of_reused_handles : ∃ h t, Tallied h t ∧ t = ⟨[⟨3⟩, ⟨0⟩, ⟨2⟩, ⟨1⟩], [], 4⟩ ∧ Exact h t := by
  have hcreated := @Tallied.created 0 .default _ rfl
  have hdefined := hcreated.performed (.define ⟨"p/Node", [], false⟩) (by decide) (by decide)
  have hfirst := hdefined.performed (.allocate 0) (by decide +kernel) (by decide +kernel)
  have hsecond := hfirst.performed (.allocate 0) (by decide +kernel) (by decide +kernel)
  have hextra := hsecond.performed (.newHandle ⟨0x1000⟩) (by decide +kernel) (by decide +kernel)
  have hreleased := hextra.performed (.release [⟨0⟩, ⟨2⟩, ⟨7⟩, ⟨0⟩]) (by decide +kernel) (by decide +kernel)
  have hmoved := hreleased.performed .collect (by decide +kernel) (by decide +kernel)
  have hlast := hmoved.performed (.newHandle ⟨0x1030⟩) (by decide +kernel) (by decide +kernel)
  have hbefore := hlast.performed (.allocate 0) (by decide +kernel) (by decide +kernel)
  have hgrown := hbefore.performed (.newHandle ⟨0x1020⟩) (by decide +kernel) (by decide +kernel)
  exact ⟨_, _, hgrown, by decide +kernel, exact_of_tallied hgrown⟩

end Heap

end KnownObjects
