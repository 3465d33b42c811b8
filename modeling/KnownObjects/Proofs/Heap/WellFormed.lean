import KnownObjects.Proofs.Heap.Handles
import KnownObjects.Proofs.Heap.Relocation

/-!
# Well-formed heaps

`Heap.Operation` is everything that anybody can do to a heap, and `Heap.Reached` says that a heap was created with settings that pass their check and changed by such operations only, none of which ran out of addresses. All reached heaps are well formed: objects lie below the frontier in the order of their addresses, no object lies at null, and every reference and every live handle leads to an object that exists.

Running out of addresses is left out because the frontier is a plain number here while addresses are its residues; beyond the address space two objects could share an address, or an object could lie at null.
-/

namespace KnownObjects

theorem Except.bind_eq_ok_iff {ε α β : Type} {x : Except ε α} {f : α → Except ε β} {b : β} :
    x >>= f = .ok b ↔ ∃ a, x = .ok a ∧ f a = .ok b := by
  cases x with
  | error e => simp [bind, Except.bind]
  | ok a => simp [bind, Except.bind]

theorem Except.bind_eq_error_iff {ε α β : Type} {x : Except ε α} {f : α → Except ε β} {e : ε} :
    x >>= f = .error e ↔ x = .error e ∨ ∃ a, x = .ok a ∧ f a = .error e := by
  cases x with
  | error d => simp [bind, Except.bind]
  | ok a => simp [bind, Except.bind]

@[simp] theorem Except.mapError_ok {ε δ α : Type} (f : ε → δ) (a : α) :
    (Except.ok a : Except ε α).mapError f = .ok a := rfl

@[simp] theorem Except.mapError_error {ε δ α : Type} (f : ε → δ) (e : ε) :
    (Except.error e : Except ε α).mapError f = .error (f e) := rfl

namespace Heap

inductive Operation where
  | define (classInfo : ClassInfo)
  | allocate (classId : ClassId)
  | store (holder : Handle) (field : String) (value : NewValue)
  | collect
  | newHandle (object : Address)
  | release (handles : List Handle)
deriving DecidableEq

inductive Answer where
  | classNumber (classId : ClassId)
  | handle (handle : Handle)
  | done
  | count (objects : Nat)
  | undefinedClass
  | refused (error : HeapError)
deriving DecidableEq

/-- What an operation answers, and the heap that it leaves. One that is refused changes nothing. -/
def perform (h : Heap) : Operation → Answer × Heap
  | .define classInfo => (.classNumber (h.define classInfo).1, (h.define classInfo).2)
  | .allocate classId =>
    match h.allocate classId with
    | some (handle, heap) => (.handle handle, heap)
    | none => (.undefinedClass, h)
  | .store holder field value =>
    match h.store holder field value with
    | .ok heap => (.done, heap)
    | .error e => (.refused e, h)
  | .collect => (.count h.collect.1, h.collect.2)
  | .newHandle object =>
    match h.newHandle object with
    | .ok (handle, heap) => (.handle handle, heap)
    | .error e => (.refused e, h)
  | .release handles => (.count (h.release handles).1, (h.release handles).2)

/-- Every address that was handed out lies within the address space. -/
def WithinSpace (h : Heap) : Prop := h.frontier < 18446744073709551616

instance (h : Heap) : Decidable h.WithinSpace := inferInstanceAs (Decidable (_ < _))

inductive Reached : Heap → Prop
  | created {id : HeapId} {settings : Settings} {h : Heap} : create id settings = .ok h → Reached h
  | performed {h : Heap} (operation : Operation) :
    Reached h → (h.perform operation).2.WithinSpace → Reached (h.perform operation).2

structure WellFormed (h : Heap) : Prop where
  aligned : 0 < h.settings.alignment.toNat
  started : 0 < h.frontier
  placed : ∀ o ∈ h.objects, 0 < o.address.toNat ∧ o.address.toNat < h.frontier
  ordered : h.objects.Pairwise fun o p => o.address.toNat < p.address.toNat
  shaped : ∀ o ∈ h.objects, o.values.length = o.classInfo.fields.length
  references : ∀ o ∈ h.objects, ∀ a, .ref a ∈ o.values → a = .null ∨ h.isLive a = true
  handles_valid : h.handles.Valid
  handles_live : ∀ a ∈ h.handles.slots, a = .null ∨ h.isLive a = true

theorem isLive_iff {h : Heap} {a : Address} : h.isLive a = true ↔ ∃ o ∈ h.objects, o.address = a := by
  simp [isLive, object?]

theorem isLive_of_mem {h : Heap} {o : Object} (ho : o ∈ h.objects) : h.isLive o.address = true :=
  isLive_iff.2 ⟨o, ho, rfl⟩

theorem resolve_eq_ok_iff {h : Heap} {handle : Handle} {a : Address} :
    h.resolve handle = .ok a ↔ h.handles.get? handle = some a := by
  simp only [resolve]
  cases h.handles.get? handle with
  | none => simp
  | some b => simp

namespace WellFormed

variable {h : Heap}

theorem distinct (hh : h.WellFormed) : (h.objects.map Object.address).Nodup := by
  unfold List.Nodup
  rw [List.pairwise_map]
  apply hh.ordered.imp
  intro o p hlt heq
  rw [heq] at hlt
  exact Nat.lt_irrefl _ hlt

theorem isLive_null (hh : h.WellFormed) : h.isLive .null = false := by
  rw [Bool.eq_false_iff]
  intro hlive
  obtain ⟨o, ho, hnull⟩ := isLive_iff.1 hlive
  have hpos := (hh.placed o ho).1
  rw [hnull] at hpos
  exact Nat.lt_irrefl _ hpos

theorem ne_null_of_isLive (hh : h.WellFormed) {a : Address} (ha : h.isLive a = true) : a ≠ .null := by
  rintro rfl
  rw [hh.isLive_null] at ha
  exact Bool.false_ne_true ha

theorem isLive_of_get? (hh : h.WellFormed) {handle : Handle} {a : Address} (hget : h.handles.get? handle = some a) :
    h.isLive a = true := by
  obtain ⟨hslot, hne⟩ := HandleTable.get?_eq_some_iff.1 hget
  exact (hh.handles_live a (Array.mem_of_getElem? hslot)).resolve_left hne

theorem isLive_of_resolve (hh : h.WellFormed) {handle : Handle} {a : Address} (hget : h.resolve handle = .ok a) :
    h.isLive a = true :=
  hh.isLive_of_get? (resolve_eq_ok_iff.1 hget)

theorem object_eq_ok_iff (hh : h.WellFormed) {a : Address} {o : Object} :
    h.object a = .ok o ↔ o ∈ h.objects ∧ o.address = a := by
  simp only [object]
  have hfind : h.object? a = some o ↔ o ∈ h.objects ∧ o.address = a := by
    constructor
    · intro hsome
      exact ⟨List.mem_of_find?_eq_some hsome, by simpa using List.find?_some hsome⟩
    · rintro ⟨ho, rfl⟩
      have hlive := isLive_of_mem ho
      unfold isLive at hlive
      obtain ⟨p, hp⟩ := Option.isSome_iff_exists.1 hlive
      have haddress : p.address = o.address := by simpa using List.find?_some hp
      rw [hp, List.inj_on_of_nodup_map hh.distinct (List.mem_of_find?_eq_some hp) ho haddress]
  cases hobject : h.object? a with
  | none =>
    rw [hobject] at hfind
    simpa using hfind
  | some p =>
    rw [hobject] at hfind
    simpa using hfind

theorem exists_object (hh : h.WellFormed) {a : Address} (ha : h.isLive a = true) :
    ∃ o ∈ h.objects, o.address = a ∧ h.object a = .ok o := by
  obtain ⟨o, ho, haddress⟩ := isLive_iff.1 ha
  exact ⟨o, ho, haddress, hh.object_eq_ok_iff.2 ⟨ho, haddress⟩⟩

/-- A read gives null or an object that exists. -/
theorem isLive_of_read (hh : h.WellFormed) {location : Location} {a : Address} (hread : h.read location = .ok a) :
    a = .null ∨ h.isLive a = true := by
  cases location with
  | handle handle => exact Or.inr (hh.isLive_of_resolve hread)
  | field holder slot =>
    obtain ⟨b, hb, hread⟩ := Except.bind_eq_ok_iff.1 hread
    obtain ⟨value, hvalue, hread⟩ := Except.bind_eq_ok_iff.1 hread
    obtain ⟨o, ho, hslot⟩ := Except.bind_eq_ok_iff.1 hvalue
    split at hslot
    · rename_i v hv
      rw [Except.ok.injEq] at hslot
      subst hslot
      cases v with
      | ref target =>
        have htarget : target = a := by simpa [Value.reference?] using hread
        subst htarget
        exact hh.references o (hh.object_eq_ok_iff.1 ho).1 _ (List.mem_of_getElem? hv)
      | int n => simp [Value.reference?] at hread
      | long n => simp [Value.reference?] at hread
    · simp at hslot

end WellFormed

end Heap

end KnownObjects
