import KnownObjects.Proofs.Heap.Holdings
import KnownObjects.Proofs.Host.Events
import Mathlib.Algebra.GroupWithZero.Nat

/-!
# Every live handle has one owner

The handles of a heap are shared out among its mutators and the tables over it. `ReachedOwning` follows a host through events of any kind, together with the handles that mutators were given and have not given back. Mutators give back only handles of their own; that is all that is asked of them. The main statement is that no handle is ever lost or held twice: the heap counts the handles of the mutators and one for each slot of each table, all of them are different, and a table that ends, by itself or with a compilation that aborts, gives back exactly those of its slots.

A table that has no room for a slot leaves a handle to nobody. The run leaves this out, as it leaves out what addresses and handles cannot express.
-/

namespace KnownObjects.Host

/-- The tables that have not ended. -/
def present (s : Host) : List Table := s.tables.filterMap id

/-- The handles that tables hold. -/
def lent (s : Host) : List Handle := s.present.flatMap fun table => table.slots.handles

namespace Event

/-- Whether an event may happen while mutators own these handles. The heap is used by mutators and not through a table. -/
def Fair (owned : List Handle) : Event → Prop
  | heap (.release handles) => ∀ h ∈ handles, h ∈ owned
  | use _ (.heap _) => False
  | _ => True

/-- The handles that mutators own after an event. -/
def owned (s : Host) (before : List Handle) : Event → List Handle
  | heap (.release handles) => before.filter fun h => h ∉ handles
  | heap operation =>
    match (s.heap.perform operation).1 with
    | .handle h => h :: before
    | _ => before
  | _ => before

/-- Whether an event needs one more slot in a table whose row is full. -/
def exhausts (s : Host) : Event → Bool
  | use k operation =>
    match s.table? k, (s.atTable k operation).1 with
    | some table, .table (.error .tableFull) => table.endIndex.toNat + 1 = 4294967295
    | _, _ => false
  | _ => false

instance (before : List Handle) : (e : Event) → Decidable (e.Fair before)
  | heap (.release handles) => inferInstanceAs (Decidable (∀ h ∈ handles, h ∈ before))
  | use _ (.heap _) => isFalse id
  | heap (.define _) | heap (.allocate _) | heap (.store _ _ _) | heap .collect | heap (.newHandle _) => isTrue trivial
  | use _ (.table _) | use _ (.indexOf _ _) | use _ (.existingIndexOf _) | use _ (.pointerOf _) => isTrue trivial
  | use _ (.serve _) | createTable | dropTable _ | abort _ _ _ => isTrue trivial

end Event

/-- Addresses, handles and slots all stay within their words. -/
structure Affords (s : Host) (e : Event) : Prop where
  space : (s.after e).heap.WithinSpace
  handles : (s.after e).heap.handles.slots.size < 4294967295
  slots : e.exhausts s = false

instance (s : Host) (e : Event) : Decidable (s.Affords e) :=
  decidable_of_iff ((s.after e).heap.WithinSpace ∧ (s.after e).heap.handles.slots.size < 4294967295 ∧
    e.exhausts s = false) ⟨fun h => ⟨h.1, h.2.1, h.2.2⟩, fun h => ⟨h.space, h.handles, h.slots⟩⟩

/-- The states that a host reaches, each with the handles that mutators own. -/
inductive ReachedOwning : Host → List Handle → Prop
  | start {id : HeapId} {settings : Settings} {heap : Heap} : Heap.create id settings = .ok heap →
    ReachedOwning ⟨heap, []⟩ []
  | event {s : Host} {owned : List Handle} (e : Event) : ReachedOwning s owned → e.Fair owned → s.Affords e →
    ReachedOwning (s.after e) (e.owned s owned)

/-- Between the two states a table has ended and given back its handles, and nothing else has changed. -/
structure Returned (k : Nat) (table : Table) (s t : Host) : Prop where
  tables : t.tables = s.tables.set k none
  objects : t.heap.objects = s.heap.objects
  count : t.heap.handles.live + (table.endIndex.toNat - 1) = s.heap.handles.live
  gone : ∀ h ∈ table.slots.handles, t.heap.resolve h = .error (.invalidHandle h)
  kept : ∀ h, h ∉ table.slots.handles → t.heap.resolve h = s.heap.resolve h

/-- The heap's handles are accounted for. -/
structure Balanced (s : Host) (owned : List Handle) : Prop where
  count : s.heap.handles.live = owned.length + (s.present.map fun table => table.endIndex.toNat - 1).sum
  distinct : (owned ++ s.lent).Nodup
  live : ∀ h ∈ owned ++ s.lent, ∃ a, s.heap.resolve h = .ok a
  dropped : ∀ k table, s.table? k = some table → Returned k table s (s.after (.dropTable k)) ∧
    (discard k : Action Fatal Host Unit).run s = ⟨.ok (), s.after (.dropTable k), [⟨.trace,
      "known object table dropped, released " ++ toString (table.endIndex.toNat - 1) ++ " handles"⟩]⟩
  /-- However its pass came to the point where it was given up, a compilation ends its table. -/
  aborted : ∀ (k id : Nat) (role : Role) (table : Table) (α : Type) (pass : Action Fatal Host α) (before : Host)
    (cause : Fatal), s.table? k = some table → pass.Ends before (.error cause) s →
      Returned k table s (s.after (.abort k id cause)) ∧ (compile k id role pass : Action Fatal Host _).Ends before
        (.ok (.error ⟨id, cause⟩)) (s.after (.abort k id cause))

/-! ### Tables in a row -/

/-- Apart from one table the others stay what they are, whatever comes to stand in its place. -/
theorem exists_present_perm {s : Host} {k : Nat} {table : Table} (h : s.table? k = some table) :
    ∃ others, ∀ heap entry, (Host.present ⟨heap, s.tables.set k entry⟩).Perm (entry.toList ++ others) := by
  obtain ⟨hlt, -⟩ := List.getElem?_eq_some_iff.1 (Option.join_eq_some_iff.1 h)
  refine ⟨(s.tables.take k).filterMap id ++ (s.tables.drop (k + 1)).filterMap id, fun heap entry => ?_⟩
  simp only [present]
  rw [List.set_eq_take_append_cons_drop, if_pos hlt, List.filterMap_append]
  cases entry with
  | none => exact List.Perm.refl _
  | some other => exact List.perm_middle

/-- The handles that tables hold, with those of one table first. -/
theorem exists_lent_perm {s : Host} {k : Nat} {table : Table} (h : s.table? k = some table) :
    ∃ others, s.lent.Perm (table.slots.handles ++ others) ∧
      (∀ heap, (Host.lent ⟨heap, s.tables.set k none⟩).Perm others) ∧
      ∀ heap other, (Host.lent ⟨heap, s.tables.set k (some other)⟩).Perm (other.slots.handles ++ others) := by
  obtain ⟨others, hperm⟩ := exists_present_perm h
  refine ⟨others.flatMap fun table => table.slots.handles, ?_, fun heap => ?_, fun heap other => ?_⟩
  · have hsame := hperm s.heap (some table)
    rw [set_table h] at hsame
    exact hsame.flatMap_right fun table => table.slots.handles
  · exact (hperm heap none).flatMap_right fun table => table.slots.handles
  · exact (hperm heap (some other)).flatMap_right fun table => table.slots.handles

theorem mem_present_set {s : Host} {k : Nat} {heap : Heap} {entry : Option Table} {table : Table}
    (h : table ∈ Host.present ⟨heap, s.tables.set k entry⟩) : entry = some table ∨ table ∈ s.present := by
  obtain ⟨other, hmem, hsome⟩ := List.mem_filterMap.1 h
  obtain rfl : other = some table := hsome
  rcases List.mem_or_eq_of_mem_set hmem with hmem | heq
  · exact Or.inr (List.mem_filterMap.2 ⟨some table, hmem, rfl⟩)
  · exact Or.inl heq.symm

theorem mem_present_of_table? {s : Host} {k : Nat} {table : Table} (h : s.table? k = some table) : table ∈ s.present :=
  List.mem_filterMap.2 ⟨some table, List.mem_of_getElem? (Option.join_eq_some_iff.1 h), rfl⟩

/-! ### What is kept -/

/-- The mutators and the tables together hold every live handle once. -/
structure Shares (s : Host) (owned : List Handle) : Prop where
  heap : s.heap.WellFormed
  fits : ∀ table ∈ s.present, table.slots.Fits
  holds : s.heap.handles.Holds (owned ++ s.lent)

end KnownObjects.Host

namespace KnownObjects.Heap

/-- An operation on the heap gives a handle to the mutators, or takes away those that they give back, or does neither. -/
theorem holds_perform {h : Heap} (hh : h.WellFormed) {owned lent : List Handle} (hholds : h.handles.Holds (owned ++ lent))
    (hroom : h.handles.slots.size < 4294967296) {operation : Operation} (hfair : (Host.Event.heap operation).Fair owned)
    (hspace : (h.perform operation).2.WithinSpace) (tables : List (Option Table)) :
    (h.perform operation).2.handles.Holds ((Host.Event.heap operation).owned ⟨h, tables⟩ owned ++ lent) := by
  cases operation with
  | define c => exact hholds
  | allocate classId =>
    simp only [perform, allocate, Host.Event.owned] at hspace ⊢
    cases hclass : h.classes[classId]? with
    | none => exact hholds
    | some c =>
      rw [hclass] at hspace
      exact hholds.insert hroom ((hh.instantiate c hspace).ne_null_of_isLive (isLive_instantiate_self h c))
  | store holder field value =>
    simp only [perform, Host.Event.owned]
    cases hstore : h.store holder field value with
    | error e => exact hholds
    | ok heap =>
      obtain ⟨a, slot, v, rfl, -⟩ := store_eq_ok hstore
      exact hholds
  | collect => exact hholds.mapSlots fun a ha => hh.relocate_eq_null_iff hspace (hh.handles_live a ha)
  | newHandle a =>
    simp only [perform, Host.Event.owned]
    cases hnew : h.newHandle a with
    | error e => exact hholds
    | ok made =>
      obtain ⟨handle, heap⟩ := made
      obtain ⟨hlive, rfl, rfl⟩ := newHandle_eq_ok_iff.1 hnew
      exact hholds.insert hroom (hh.ne_null_of_isLive hlive)
  | release handles =>
    have hreleased := hholds.releaseAll handles
    have hdisjoint := List.disjoint_of_nodup_append hholds.nodup
    have hlent : (lent.filter fun k => k ∉ handles) = lent := by
      rw [List.filter_eq_self]
      intro k hk
      simpa using fun hmem => hdisjoint (hfair k hmem) hk
    rwa [List.filter_append, hlent] at hreleased

end KnownObjects.Heap

namespace KnownObjects.Host

namespace Shares

variable {s : Host} {owned : List Handle}

/-- Every slot but the one of null holds a handle. -/
theorem endIndex_eq (h : s.Shares owned) {table : Table} (htable : table ∈ s.present) :
    table.endIndex.toNat - 1 = table.slots.handles.length := by
  rw [Table.endIndex, (h.fits table htable).toNat_size, Nat.add_sub_cancel]

theorem count_eq (h : s.Shares owned) : s.heap.handles.live =
    owned.length + (s.present.map fun table => table.endIndex.toNat - 1).sum := by
  rw [h.holds.live, List.length_append, lent, List.length_flatMap]
  congr 2
  apply List.map_congr_left
  exact fun table htable => (h.endIndex_eq htable).symm

/-- The handles of one table in front of all others. -/
theorem exists_holds (h : s.Shares owned) {k : Nat} {table : Table} (htable : s.table? k = some table) :
    ∃ others, s.heap.handles.Holds (table.slots.handles ++ (owned ++ others)) ∧
      ∀ heap, (Host.lent ⟨heap, s.tables.set k none⟩).Perm others := by
  obtain ⟨others, hlent, hleft, -⟩ := exists_lent_perm htable
  refine ⟨others, h.holds.perm ?_, hleft⟩
  refine (List.Perm.append_left owned hlent).trans ?_
  rw [← List.append_assoc, ← List.append_assoc]
  exact List.perm_append_comm.append_right others

theorem count_release (h : s.Shares owned) {k : Nat} {table : Table} (htable : s.table? k = some table) :
    (s.heap.release table.slots.handles).1 = table.endIndex.toNat - 1 := by
  obtain ⟨others, hholds, -⟩ := h.exists_holds htable
  rw [h.endIndex_eq (mem_present_of_table? htable)]
  exact hholds.releaseAll_append.2

theorem dropTable (h : s.Shares owned) (k : Nat) : (s.after (.dropTable k)).Shares owned := by
  cases htable : s.table? k with
  | none => exact (after_dropTable_of_absent htable).symm ▸ h
  | some table =>
    obtain ⟨others, hholds, hleft⟩ := h.exists_holds htable
    rw [after_dropTable htable]
    refine ⟨h.heap.release _, fun other hother => ?_, hholds.releaseAll_append.1.perm ?_⟩
    · rcases mem_present_set hother with hnone | hmem
      · simp at hnone
      · exact h.fits other hmem
    · exact List.Perm.append_left owned (hleft _).symm

theorem returned (h : s.Shares owned) {k : Nat} {table : Table} (htable : s.table? k = some table) :
    Returned k table s (s.after (.dropTable k)) := by
  rw [after_dropTable htable]
  constructor
  case tables | objects => rfl
  case count =>
    rw [← h.count_release htable, Nat.add_comm]
    exact h.heap.handles_valid.live_releaseAll table.slots.handles
  case gone =>
    intro handle hhandle
    simp only [Heap.resolve, Heap.release]
    rw [HandleTable.Valid.get?_releaseAll_of_mem hhandle]
  case kept =>
    intro handle hhandle
    simp only [Heap.resolve, Heap.release]
    rw [HandleTable.Valid.get?_releaseAll_of_not_mem hhandle]

theorem use (h : s.Shares owned) (hroom : s.heap.handles.slots.size < 4294967296) {k : Nat} {table : Table}
    (htable : s.table? k = some table) {operation : Site.Operation}
    (huse : ∀ heapOperation, operation ≠ .heap heapOperation) (hslots : (Event.use k operation).exhausts s = false) :
    (s.after (.use k operation)).Shares owned := by
  obtain ⟨others, hlent, -, hset⟩ := exists_lent_perm htable
  have hused := Site.used_perform huse ⟨s.heap, table⟩
  have hfits := h.fits table (mem_present_of_table? htable)
  have hgrown : (operation.next ⟨s.heap, table⟩).table.slots.Fits := (Site.perform_grows operation _ hfits).1
  rw [after_use htable]
  have hall : ∀ other ∈ Host.present ⟨(operation.next ⟨s.heap, table⟩).heap,
      s.tables.set k (some (operation.next ⟨s.heap, table⟩).table)⟩, other.slots.Fits := by
    intro other hother
    rcases mem_present_set hother with hsame | hmem
    · exact Option.some.inj hsame ▸ hgrown
    · exact h.fits other hmem
  have hbefore := h.holds.perm (List.Perm.append_left owned hlent)
  have hafter := (List.Perm.append_left owned (hset (operation.next ⟨s.heap, table⟩).heap
    (operation.next ⟨s.heap, table⟩).table)).symm
  simp only [Event.exhausts, atTable, htable] at hslots
  generalize ((Site.perform operation).run ⟨s.heap, table⟩).result = q at hused hslots
  cases hused with
  | plain hheap hsame =>
    rw [hsame] at hafter
    exact ⟨hheap ▸ h.heap, hall, hheap ▸ hbefore.perm hafter⟩
  | @learnt _ _ a _ hlive happend hheap =>
    obtain ⟨-, -, hrow⟩ := hfits.append?_eq_some_iff.1 happend
    refine ⟨hheap ▸ h.heap.withHandle hlive, hall, ?_⟩
    have hinsert := hbefore.insert hroom (h.heap.ne_null_of_isLive hlive)
    rw [← List.append_assoc] at hinsert
    -- The new handle is at the front of the list and belongs at the end of the table's handles.
    have hmoved : ((s.heap.handles.insert a).1 :: (owned ++ table.slots.handles ++ others)).Perm
        (owned ++ ((operation.next ⟨s.heap, table⟩).table.slots.handles ++ others)) := by
      rw [hrow, ← List.append_assoc, ← List.append_assoc]
      exact (List.perm_append_singleton _ (owned ++ table.slots.handles)).symm.append_right others
    rw [hheap]
    exact hinsert.perm (hmoved.trans hafter)
  | full _ hfull =>
    have hcrowded : table.endIndex.toNat + 1 ≠ 4294967295 := of_decide_eq_false hslots
    rw [Table.endIndex, hfits.toNat_size] at hcrowded
    rw [hfits.append?] at hfull
    unfold SlotStore.Fits at hfits
    rw [if_pos (by omega)] at hfull
    simp at hfull

/-- Whatever happens, every live handle still has one owner. -/
theorem after (h : s.Shares owned) (hroom : s.heap.handles.slots.size < 4294967296) {e : Event} (hfair : e.Fair owned)
    (hafford : s.Affords e) : (s.after e).Shares (e.owned s owned) := by
  cases e with
  | heap operation =>
    exact ⟨h.heap.change (after_change s (.heap operation)) hafford.space, h.fits,
      Heap.holds_perform h.heap h.holds hroom hfair hafford.space s.tables⟩
  | createTable =>
    have hpresent : (s.after .createTable).present = s.present ++ [.empty s.heap.id] := List.filterMap_append
    have hlent : (s.after .createTable).lent = s.lent := by
      simp [lent, hpresent, Table.empty, SlotStore.empty]
    refine ⟨h.heap, fun table htable => ?_, hlent ▸ h.holds⟩
    rw [hpresent, List.mem_append, List.mem_singleton] at htable
    rcases htable with htable | rfl
    · exact h.fits table htable
    · exact SlotStore.empty_fits
  | use k operation =>
    cases htable : s.table? k with
    | none => exact (after_use_of_absent htable operation).symm ▸ h
    | some table =>
      exact h.use hroom htable (fun heapOperation heq => by simp [heq, Event.Fair] at hfair) hafford.slots
  | dropTable k => exact h.dropTable k
  | abort k id cause =>
    rw [after_abort]
    exact h.dropTable k

/-- Handles that are shared out are accounted for. -/
theorem balanced (h : s.Shares owned) : s.Balanced owned where
  count := h.count_eq
  distinct := h.holds.nodup
  live k hk := by
    obtain ⟨a, ha⟩ := (h.holds.mem_iff k).1 hk
    exact ⟨a, Heap.resolve_eq_ok_iff.2 ha⟩
  dropped k table htable := by
    refine ⟨h.returned htable, ?_⟩
    rw [after_dropTable htable, ← h.count_release htable, discard, Action.run_bind_ok (Action.run_get s), htable]
    rfl
  aborted k id role table α pass before cause htable hpass := by
    refine ⟨?_, compile_ends_of_error hpass⟩
    rw [after_abort]
    exact h.returned htable

end Shares

theorem ReachedOwning.shares {s : Host} {owned : List Handle} (h : s.ReachedOwning owned) :
    s.Shares owned ∧ s.heap.handles.slots.size < 4294967295 := by
  induction h with
  | @start id settings heap hcreate =>
    have hformed := Heap.create_wellFormed hcreate
    obtain ⟨-, rfl⟩ := Heap.create_eq_ok_iff.1 hcreate
    refine ⟨⟨hformed, fun table htable => (nomatch htable), HandleTable.empty_holds⟩, ?_⟩
    show (0 : Nat) < 4294967295
    decide
  | event e _ hfair hafford ih => exact ⟨ih.1.after (by omega) hfair hafford, hafford.handles⟩

/-- In every state that is reached, mutators and tables account for every handle, and a table that ends gives back its own. -/
theorem balanced_of_reachedOwning {s : Host} {owned : List Handle} (h : s.ReachedOwning owned) : s.Balanced owned :=
  h.shares.1.balanced

/-- Two compilations meet the same object. The first one aborts while the second one goes on, and an allocation uses the number of its handle again. -/
theorem balanced_of_overlapping_compilations :
    ∃ s owned, ReachedOwning s owned ∧ owned = [⟨1⟩, ⟨0⟩] ∧ s.lent = [⟨2⟩] ∧ s.Balanced owned := by
  have hstart := ReachedOwning.start (@rfl _ (Heap.create 0 .default))
  have hdefined := hstart.event (.heap (.define ⟨"p/A", [], false⟩)) trivial (by decide +kernel)
  have hmade := hdefined.event (.heap (.allocate 0)) trivial (by decide +kernel)
  have houter := hmade.event .createTable trivial (by decide +kernel)
  have hmet := houter.event (.use 0 (.table (.indexAt (.handle ⟨0⟩) true))) trivial (by decide +kernel)
  have hinner := hmet.event .createTable trivial (by decide +kernel)
  have hboth := hinner.event (.use 1 (.serve (.getIndex ⟨0x1000⟩))) trivial (by decide +kernel)
  have haborted := hboth.event (.abort 0 0 .tableFull) trivial (by decide +kernel)
  have hreused := haborted.event (.heap (.allocate 0)) trivial (by decide +kernel)
  exact ⟨_, _, hreused, by decide +kernel, by decide +kernel, balanced_of_reachedOwning hreused⟩

end KnownObjects.Host
