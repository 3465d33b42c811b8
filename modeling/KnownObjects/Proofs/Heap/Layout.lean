import KnownObjects.Proofs.Heap.Operations
import Mathlib.Data.Set.Lattice
import Mathlib.Order.CompletePartialOrder
import Mathlib.Order.Interval.Set.Basic

/-!
# How objects lie on a heap

Objects are placed one after the other. `Packed` says so of a row of addresses and sizes: each address is a multiple of the alignment, the room of one object ends before the next begins, and all of them lie between two bounds. A heap is laid out when its objects are packed between its base and its frontier, and the frontier is aligned as well. An allocation adds an object at the frontier; a collection packs the same objects anew from the frontier on.

`Intact` gathers what is then true of every heap at every moment, with what follows for those who read and write it: an address that a handle gives can be read, and no store meets an address without an object.
-/

namespace KnownObjects.Heap

/-- The numbers of the address space that an object takes up. -/
def extent (h : Heap) (o : Object) : Set Nat :=
  Set.Ico o.address.toNat (o.address.toNat + h.settings.footprint o.values.length)

/-- Objects with these addresses and numbers of fields lie in order from `low` on and end at or below `high`. -/
def Packed (settings : Settings) (low high : Nat) : List (Address × Nat) → Prop
  | [] => low ≤ high
  | (a, fields) :: rest =>
    low ≤ a.toNat ∧ settings.alignment.toNat ∣ a.toNat ∧
      Packed settings (a.toNat + settings.footprint fields) high rest

namespace Packed

variable {settings : Settings} {low mid high : Nat} {row next : List (Address × Nat)}

theorem bounds_le (h : Packed settings low high row) : low ≤ high := by
  induction row generalizing low with
  | nil => exact h
  | cons p rest ih =>
    obtain ⟨hlow, -, hrest⟩ := h
    exact Nat.le_trans hlow (Nat.le_trans (Nat.le_add_right _ _) (ih hrest))

theorem from_lower (h : Packed settings mid high row) (hle : low ≤ mid) : Packed settings low high row := by
  cases row with
  | nil => exact Nat.le_trans hle h
  | cons p rest => exact ⟨Nat.le_trans hle h.1, h.2⟩

theorem append (h : Packed settings low mid row) (hnext : Packed settings mid high next) :
    Packed settings low high (row ++ next) := by
  induction row generalizing low with
  | nil => exact hnext.from_lower h
  | cons p rest ih =>
    obtain ⟨hlow, haligned, hrest⟩ := h
    exact ⟨hlow, haligned, ih hrest⟩

theorem placed (h : Packed settings low high row) {p : Address × Nat} (hp : p ∈ row) :
    low ≤ p.1.toNat ∧ settings.alignment.toNat ∣ p.1.toNat ∧ p.1.toNat + settings.footprint p.2 ≤ high := by
  induction row generalizing low with
  | nil => simp at hp
  | cons q rest ih =>
    obtain ⟨hlow, haligned, hrest⟩ := h
    rcases List.mem_cons.1 hp with rfl | hp
    · exact ⟨hlow, haligned, hrest.bounds_le⟩
    · obtain ⟨hstart, hmultiple, hend⟩ := ih hrest hp
      exact ⟨by omega, hmultiple, hend⟩

theorem apart (h : Packed settings low high row) :
    row.Pairwise fun p q => p.1.toNat + settings.footprint p.2 ≤ q.1.toNat := by
  induction row generalizing low with
  | nil => exact List.Pairwise.nil
  | cons p rest ih =>
    obtain ⟨-, -, hrest⟩ := h
    exact List.Pairwise.cons (fun q hq => (hrest.placed hq).1) (ih hrest)

end Packed

theorem dvd_footprint (settings : Settings) (fields : Nat) : settings.alignment.toNat ∣ settings.footprint fields :=
  Nat.dvd_mul_right _ _

theorem dvd_frontierAfter {settings : Settings} {next : Nat} (hnext : settings.alignment.toNat ∣ next)
    (objects : List Object) : settings.alignment.toNat ∣ frontierAfter settings next objects := by
  induction objects generalizing next with
  | nil => exact hnext
  | cons o rest ih => exact ih (Nat.dvd_add hnext (dvd_footprint settings _))

/-- A collection packs the objects from the old frontier to the new one. -/
theorem packed_moves {settings : Settings} {next : Nat} (hnext : settings.alignment.toNat ∣ next)
    {objects : List Object} (hspace : frontierAfter settings next objects < 18446744073709551616) :
    Packed settings next (frontierAfter settings next objects)
      (((moves settings next objects).map Prod.snd).zip (objects.map fun o => o.values.length)) := by
  induction objects generalizing next with
  | nil => exact Nat.le_refl next
  | cons o rest ih =>
    have hafter := le_frontierAfter settings (next + settings.footprint o.values.length) rest
    change frontierAfter settings (next + settings.footprint o.values.length) rest < _ at hspace
    have hnat : (Address.ofNat next).toNat = next := Address.toNat_ofNat (by omega)
    refine ⟨Nat.le_of_eq hnat.symm, hnat.symm ▸ hnext, ?_⟩
    rw [hnat]
    exact ih (Nat.dvd_add hnext (dvd_footprint settings _)) hspace

/-- The address and the number of fields of each object. -/
def row (h : Heap) : List (Address × Nat) := h.objects.map fun o => (o.address, o.values.length)

structure LaidOut (h : Heap) : Prop where
  aligned : h.settings.alignment.toNat ∣ h.frontier
  packed : Packed h.settings h.settings.base.toNat h.frontier h.row

theorem dvd_base_of_check {settings : Settings} (hcheck : settings.check = .ok ()) :
    settings.alignment.toNat ∣ settings.base.toNat := by
  have hmod : settings.base % settings.alignment = 0 := by
    by_contra hne
    unfold Settings.check at hcheck
    split at hcheck
    · simp at hcheck
    · split at hcheck <;> simp at hcheck
  apply Nat.dvd_of_mod_eq_zero
  rw [← UInt64.toNat_mod, hmod]
  rfl

theorem create_laidOut {id : HeapId} {settings : Settings} {h : Heap} (hcreate : create id settings = .ok h) :
    h.LaidOut := by
  obtain ⟨hcheck, rfl⟩ := create_eq_ok_iff.1 hcreate
  exact ⟨dvd_base_of_check hcheck, Nat.le_refl _⟩

namespace LaidOut

variable {h : Heap}

theorem instantiate (hh : h.LaidOut) (c : ClassInfo) (hspace : (h.instantiate c).2.WithinSpace) :
    (h.instantiate c).2.LaidOut := by
  change h.frontier + h.settings.footprint (c.fields.map Value.zeroOf).length < 18446744073709551616 at hspace
  have hnat : (Address.ofNat h.frontier).toNat = h.frontier := Address.toNat_ofNat (by omega)
  refine ⟨Nat.dvd_add hh.aligned (dvd_footprint h.settings _), ?_⟩
  have hlast : Packed h.settings h.frontier (h.frontier + h.settings.footprint (c.fields.map Value.zeroOf).length)
      [(Address.ofNat h.frontier, (c.fields.map Value.zeroOf).length)] := by
    refine ⟨Nat.le_of_eq hnat.symm, hnat.symm ▸ hh.aligned, ?_⟩
    rw [hnat]
    exact Nat.le_refl _
  have happended := hh.packed.append hlast
  simp only [Heap.row] at happended
  simp only [Heap.row, Heap.instantiate]
  rw [List.map_append]
  exact happended

theorem setValue (hh : h.LaidOut) (a : Address) (slot : Nat) (v : Value) : (h.setValue a slot v).LaidOut := by
  refine ⟨hh.aligned, ?_⟩
  have hrow : (h.setValue a slot v).row = h.row := by
    simp only [Heap.row, Heap.setValue]
    rw [List.map_map]
    apply List.map_congr_left
    intro o _
    simp only [Function.comp]
    split
    · rw [List.length_set]
    · rfl
  rw [hrow]
  exact hh.packed

theorem collect (hh : h.LaidOut) (hformed : h.WellFormed) (hspace : h.collect.2.WithinSpace) :
    h.collect.2.LaidOut := by
  refine ⟨dvd_frontierAfter hh.aligned h.objects, ?_⟩
  have hmoved := packed_moves hh.aligned hspace
  rw [← map_forward hformed.distinct, List.zip_map'] at hmoved
  have hrow : h.collect.2.row =
      h.objects.map fun o => (forward (moves h.settings h.frontier h.objects) o.address, o.values.length) := by
    simp only [Heap.row, Heap.collect]
    rw [List.map_map]
    apply List.map_congr_left
    intro o _
    simp only [Function.comp, List.length_map]
  rw [hrow]
  exact hmoved.from_lower hh.packed.bounds_le

/-- A change that stays within the address space leaves the objects packed. -/
theorem change (hh : h.LaidOut) (hformed : h.WellFormed) {handles : List Handle} {heap : Heap}
    (hchange : Change h handles heap) (hspace : heap.WithinSpace) : heap.LaidOut := by
  cases hchange with
  | none => exact hh
  | defined | bound | released => exact ⟨hh.aligned, hh.packed⟩
  | allocated c => exact hh.instantiate c hspace
  | stored a slot v => exact hh.setValue a slot v
  | collected => exact hh.collect hformed hspace

end LaidOut

theorem Change.settings_eq {h heap : Heap} {handles : List Handle} (hchange : Change h handles heap) :
    heap.settings = h.settings := by
  cases hchange <;> rfl

/-- Every object is an instance of a class that was defined. -/
def Classed (h : Heap) : Prop := ∀ o ∈ h.objects, o.classInfo ∈ h.classes

/-- An operation keeps the classes of all objects, and a new object gets a class that is defined. -/
theorem Classed.perform {h : Heap} (hh : h.Classed) (operation : Operation) : (h.perform operation).2.Classed := by
  cases operation with
  | define c => exact fun o ho => List.mem_append_left [c] (hh o ho)
  | allocate classId =>
    simp only [Heap.perform, allocate]
    cases hclass : h.classes[classId]? with
    | none => exact hh
    | some c =>
      intro o ho
      rcases mem_objects_instantiate ho with ho | ⟨-, hinstance, -⟩
      · exact hh o ho
      · rw [hinstance]
        exact List.mem_of_getElem? hclass
  | store holder field value =>
    simp only [Heap.perform]
    cases hstore : h.store holder field value with
    | error e => exact hh
    | ok heap =>
      obtain ⟨a, slot, v, rfl, -⟩ := store_eq_ok hstore
      intro o ho
      obtain ⟨p, hp, -, hsame, -⟩ := mem_objects_setValue ho
      rw [hsame]
      exact hh p hp
  | collect =>
    intro o ho
    obtain ⟨p, hp, rfl⟩ := List.mem_map.1 ho
    exact hh p hp
  | newHandle object =>
    simp only [Heap.perform]
    cases hnew : h.newHandle object with
    | error e => exact hh
    | ok made =>
      obtain ⟨-, -, hheap⟩ := newHandle_eq_ok_iff.1 hnew
      rw [hheap]
      exact hh
  | release handles => exact hh

theorem Reached.laidOut {h : Heap} (hreached : h.Reached) :
    h.LaidOut ∧ h.Classed ∧ h.settings.check = .ok () := by
  induction hreached with
  | created hcreate =>
    have hlaid := create_laidOut hcreate
    obtain ⟨hcheck, rfl⟩ := create_eq_ok_iff.1 hcreate
    exact ⟨hlaid, fun o ho => (nomatch ho), hcheck⟩
  | @performed h operation hbefore hspace ih =>
    obtain ⟨hlaid, hclassed, hcheck⟩ := ih
    have hchange := perform_change h operation
    exact ⟨hlaid.change hbefore.wellFormed hchange hspace, hclassed.perform operation,
      hchange.settings_eq ▸ hcheck⟩

/-! ### Reading and writing -/

/-- What a handle leads to can be read in full. -/
theorem WellFormed.reads_of_resolve {h : Heap} (hh : h.WellFormed) {handle : Handle} {a : Address} (hresolve : h.resolve handle = .ok a) :
    ∃ o : Object, h.classOf a = .ok o.classInfo ∧ h.hashOf a = .ok o.hash ∧
      ∀ slot : UInt64, slot.toNat < o.classInfo.fields.length → ∃ v, h.fieldAt a slot = .ok v := by
  obtain ⟨o, ho, -, hobject⟩ := hh.exists_object (hh.isLive_of_resolve hresolve)
  refine ⟨o, ?_, ?_, fun slot hslot => ?_⟩
  · simp only [classOf, hobject]
    rfl
  · simp only [hashOf, hobject]
    rfl
  · rw [← hh.shaped o ho] at hslot
    refine ⟨o.values[slot.toNat], Except.bind_eq_ok_iff.2 ⟨o, hobject, ?_⟩⟩
    rw [List.getElem?_eq_getElem hslot]

theorem resolve_ne_staleAddress (h : Heap) (handle : Handle) (a : Address) :
    h.resolve handle ≠ .error (.staleAddress a) := by
  simp only [resolve]
  split <;> simp

theorem valueOf_ne_staleAddress (h : Heap) (new : NewValue) (a : Address) :
    h.valueOf new ≠ .error (.staleAddress a) := by
  intro hvalue
  cases new with
  | ref target =>
    rcases Except.bind_eq_error_iff.1 hvalue with hresolve | ⟨b, -, hmade⟩
    · exact resolve_ne_staleAddress h target a hresolve
    · simp [pure, Except.pure] at hmade
  | int | long | null => simp [valueOf] at hvalue

theorem slotOf_ne_staleAddress (o : Object) (field : String) (a : Address) :
    slotOf o field ≠ .error (.staleAddress a) := by
  simp only [slotOf]
  split <;> simp

/-- A store can fail in many ways, but never because an object is missing. -/
theorem WellFormed.store_ne_staleAddress {h : Heap} (hh : h.WellFormed) (holder : Handle) (field : String) (new : NewValue)
    (a : Address) : h.store holder field new ≠ .error (.staleAddress a) := by
  intro hstore
  rcases Except.bind_eq_error_iff.1 hstore with hholder | ⟨b, hholder, hstore⟩
  · exact resolve_ne_staleAddress h holder a hholder
  rcases Except.bind_eq_error_iff.1 hstore with hvalue | ⟨v, -, hstore⟩
  · exact valueOf_ne_staleAddress h new a hvalue
  obtain ⟨o, -, -, hobject⟩ := hh.exists_object (hh.isLive_of_resolve hholder)
  rcases Except.bind_eq_error_iff.1 hstore with hmissing | ⟨p, -, hstore⟩
  · rw [hobject] at hmissing
    simp at hmissing
  rcases Except.bind_eq_error_iff.1 hstore with hslot | ⟨slot, -, hstore⟩
  · exact slotOf_ne_staleAddress p field a hslot
  split at hstore
  · split at hstore <;> simp [pure, Except.pure, throw, throwThe, MonadExceptOf.throw] at hstore
  · simp [throw, throwThe, MonadExceptOf.throw] at hstore

/-- What is true of a heap at every moment. -/
structure Intact (h : Heap) : Prop where
  settings : h.settings.check = .ok ()
  /-- Objects lie on multiples of the alignment, between the base and the frontier. -/
  placed : ∀ o ∈ h.objects, o.address ≠ .null ∧ h.settings.alignment.toNat ∣ o.address.toNat ∧
    h.settings.base.toNat ≤ o.address.toNat ∧ o.address.toNat + h.settings.footprint o.values.length ≤ h.frontier
  apart : h.objects.Pairwise fun o p => Disjoint (h.extent o) (h.extent p)
  classed : ∀ o ∈ h.objects, o.classInfo ∈ h.classes ∧ o.values.length = o.classInfo.fields.length
  references : ∀ o ∈ h.objects, ∀ a, .ref a ∈ o.values → a = .null ∨ h.isLive a = true
  handles : ∀ a ∈ h.handles.slots, a = .null ∨ h.isLive a = true
  /-- What a handle leads to can be read. -/
  readable : ∀ handle a, h.resolve handle = .ok a → ∃ c hash, h.classOf a = .ok c ∧ h.hashOf a = .ok hash ∧
    ∀ slot : UInt64, slot.toNat < c.fields.length → ∃ v, h.fieldAt a slot = .ok v
  writable : ∀ holder field value a, h.store holder field value ≠ .error (.staleAddress a)

/-- Every heap that operations of any kind lead to is intact. -/
theorem intact_of_reached {h : Heap} (hreached : h.Reached) : h.Intact := by
  have hh := hreached.wellFormed
  obtain ⟨hlaid, hclassed, hcheck⟩ := hreached.laidOut
  have hrow : ∀ o ∈ h.objects, (o.address, o.values.length) ∈ h.row := fun o ho => List.mem_map_of_mem ho
  constructor
  case settings => exact hcheck
  case placed =>
    intro o ho
    obtain ⟨hbase, haligned, hend⟩ := hlaid.packed.placed (hrow o ho)
    exact ⟨hh.ne_null_of_isLive (isLive_of_mem ho), haligned, hbase, hend⟩
  case apart =>
    have hapart := hlaid.packed.apart
    simp only [row] at hapart
    rw [List.pairwise_map] at hapart
    refine hapart.imp fun {o p} hle => ?_
    rw [Set.disjoint_left]
    intro n hn hother
    simp only [extent] at hn hother
    rw [Set.mem_Ico] at hn hother
    exact absurd (Nat.lt_of_lt_of_le hn.2 (Nat.le_trans hle hother.1)) (Nat.lt_irrefl n)
  case classed => exact fun o ho => ⟨hclassed o ho, hh.shaped o ho⟩
  case references => exact hh.references
  case handles => exact hh.handles_live
  case readable =>
    intro handle a hresolve
    obtain ⟨o, hclass, hhash, hfields⟩ := hh.reads_of_resolve hresolve
    exact ⟨o.classInfo, o.hash, hclass, hhash, hfields⟩
  case writable => exact hh.store_ne_staleAddress

/-- Two objects that refer to each other, one of them with two handles, after a collection, a release and a store through the handle that is gone. -/
theorem intact_after_failed_store : ∃ h : Heap, h.Reached ∧ h.objects.length = 2 ∧ h.Intact := by
  have hcreated := @Reached.created 0 ⟨0x40, 8, 7⟩ _ rfl
  have hdefined := hcreated.performed (.define ⟨"p/Node", [.ofSignature "next" "Lp/Node;", .ofSignature "n" "J"], false⟩)
    (by decide)
  have hfirst := hdefined.performed (.allocate 0) (by decide +kernel)
  have hsecond := hfirst.performed (.allocate 0) (by decide +kernel)
  have hlinked := hsecond.performed (.store ⟨0⟩ "next" (.ref ⟨1⟩)) (by decide +kernel)
  have hcycle := hlinked.performed (.store ⟨1⟩ "next" (.ref ⟨0⟩)) (by decide +kernel)
  have hmoved := hcycle.performed .collect (by decide +kernel)
  have hbound := hmoved.performed (.newHandle ⟨0x88⟩) (by decide +kernel)
  have hreleased := hbound.performed (.release [⟨1⟩, ⟨9⟩]) (by decide +kernel)
  have hfailed := hreleased.performed (.store ⟨1⟩ "n" (.long 4)) (by decide +kernel)
  exact ⟨_, hfailed, by decide +kernel, intact_of_reached hfailed⟩

end KnownObjects.Heap
