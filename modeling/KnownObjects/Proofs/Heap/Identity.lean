import KnownObjects.Proofs.Heap.Operations

/-!
# The identity of objects

Objects are listed in the order of their allocation and none is ever taken off the list, so the place of an object in the list is its identity: addresses change with every collection, this number never does. A live handle keeps leading to the object of the same number through every change of the heap that does not give that very handle back.
-/

namespace KnownObjects.Heap

/-- The number of the object at an address, if there is one. -/
def number? (h : Heap) (a : Address) : Option Nat := h.objects.findIdx? (·.address == a)

/-- The number of the object behind a handle, if the handle is live. -/
def numberOf? (h : Heap) (handle : Handle) : Option Nat := (h.handles.get? handle).bind h.number?

theorem exists_of_number? {h : Heap} {a : Address} {n : Nat} (hnumber : h.number? a = some n) :
    ∃ o, h.objects[n]? = some o ∧ o.address = a := by
  obtain ⟨hlt, hp, -⟩ := List.findIdx?_eq_some_iff_getElem.1 hnumber
  exact ⟨h.objects[n], List.getElem?_eq_getElem hlt, by simpa using hp⟩

theorem number?_inj {h : Heap} {a b : Address} {n : Nat} (ha : h.number? a = some n) (hb : h.number? b = some n) :
    a = b := by
  obtain ⟨o, ho, rfl⟩ := exists_of_number? ha
  obtain ⟨p, hp, rfl⟩ := exists_of_number? hb
  rw [ho] at hp
  rw [Option.some.inj hp]

theorem isSome_number? {h : Heap} {a : Address} : (h.number? a).isSome = h.isLive a := by
  simp only [number?, isLive, object?]
  rw [Bool.eq_iff_iff, List.findIdx?_isSome, List.find?_isSome, List.any_eq_true]

theorem number?_eq_none_iff {h : Heap} {a : Address} : h.number? a = none ↔ h.isLive a = false := by
  rw [← isSome_number?]
  simp

theorem exists_number?_iff {h : Heap} {a : Address} : (∃ n, h.number? a = some n) ↔ h.isLive a = true := by
  rw [← isSome_number?, Option.isSome_iff_exists]

namespace WellFormed

variable {h : Heap}

/-- Addresses are distinct, so the number of an object is its place. -/
theorem number?_eq_some_iff (hh : h.WellFormed) {a : Address} {n : Nat} :
    h.number? a = some n ↔ ∃ o, h.objects[n]? = some o ∧ o.address = a := by
  refine ⟨exists_of_number?, ?_⟩
  rintro ⟨o, ho, rfl⟩
  obtain ⟨k, hk⟩ := exists_number?_iff.2 (isLive_of_mem (List.mem_of_getElem? ho))
  obtain ⟨p, hp, haddress⟩ := exists_of_number? hk
  have hplaces : (h.objects.map Object.address)[k]? = (h.objects.map Object.address)[n]? := by
    rw [List.getElem?_map, List.getElem?_map, hp, ho, Option.map_some, Option.map_some, haddress]
  have hlt : k < (h.objects.map Object.address).length := by
    rw [List.length_map]
    exact (List.getElem?_eq_some_iff.1 hp).1
  rw [hk, (List.getElem?_inj hlt hh.distinct).1 hplaces]

theorem number?_null (hh : h.WellFormed) : h.number? .null = none :=
  number?_eq_none_iff.2 hh.isLive_null

theorem exists_numberOf? (hh : h.WellFormed) {handle : Handle} {a : Address} (hget : h.handles.get? handle = some a) :
    ∃ n, h.numberOf? handle = some n := by
  obtain ⟨n, hn⟩ := exists_number?_iff.2 (hh.isLive_of_get? hget)
  exact ⟨n, by rw [numberOf?, hget, Option.bind_some, hn]⟩

theorem number?_relocate (hh : h.WellFormed) (hspace : h.collect.2.WithinSpace) {a : Address} {n : Nat}
    (hn : h.number? a = some n) : h.collect.2.number? (h.relocate a) = some n := by
  obtain ⟨o, ho, rfl⟩ := exists_of_number? hn
  rw [(hh.collect hspace).number?_eq_some_iff]
  simp only [Heap.collect]
  simp only [List.getElem?_map, ho, Option.map_some]
  exact ⟨_, rfl, rfl⟩

theorem number?_instantiate (c : ClassInfo) {a : Address} {n : Nat} (hn : h.number? a = some n) :
    (h.instantiate c).2.number? a = some n := by
  unfold number? at *
  simp only [Heap.instantiate, List.findIdx?_append, hn, Option.some_or]

@[simp] theorem number?_setValue (a : Address) (slot : Nat) (v : Value) (b : Address) :
    (h.setValue a slot v).number? b = h.number? b := by
  simp only [number?, Heap.setValue]
  rw [List.findIdx?_map]
  congr 1
  funext o
  simp only [Function.comp]
  split <;> rfl

/-- A handle that is not given back keeps leading to the same object. -/
theorem numberOf?_change (hh : h.WellFormed) {handles : List Handle} {heap : Heap} (hchange : Change h handles heap)
    (hspace : heap.WithinSpace) {handle : Handle} (hkept : handle ∉ handles) {n : Nat}
    (hn : h.numberOf? handle = some n) : heap.numberOf? handle = some n := by
  obtain ⟨a, hget, hnumber⟩ := Option.bind_eq_some_iff.1 hn
  cases hchange with
  | none => exact hn
  | defined c => exact hn
  | allocated c =>
    exact Option.bind_eq_some_iff.2 ⟨a, hh.handles_valid.get?_insert_of_get? hget, number?_instantiate c hnumber⟩
  | stored b slot v hv =>
    exact Option.bind_eq_some_iff.2 ⟨a, hget, (number?_setValue b slot v a).trans hnumber⟩
  | collected =>
    refine Option.bind_eq_some_iff.2 ⟨h.relocate a, ?_, hh.number?_relocate hspace hnumber⟩
    change (h.handles.mapSlots h.relocate).get? handle = _
    rw [HandleTable.Valid.get?_mapSlots (fun b hb => hh.relocate_eq_null_iff hspace (hh.handles_live b hb)), hget]
    rfl
  | bound b hb =>
    exact Option.bind_eq_some_iff.2 ⟨a, hh.handles_valid.get?_insert_of_get? hget, hnumber⟩
  | released =>
    refine Option.bind_eq_some_iff.2 ⟨a, ?_, hnumber⟩
    exact (HandleTable.Valid.get?_releaseAll_of_not_mem hkept).trans hget

theorem numberOf?_withHandle (hh : h.WellFormed) (hroom : h.handles.slots.size < 4294967296) {a : Address}
    (ha : h.isLive a = true) : (h.withHandle a).numberOf? (h.handles.insert a).1 = h.number? a := by
  simp only [numberOf?, Heap.withHandle]
  rw [hh.handles_valid.get?_insert_self (hh.ne_null_of_isLive ha) hroom]
  rfl

end WellFormed

end KnownObjects.Heap
