import KnownObjects.Proofs.Coupling
import KnownObjects.Proofs.Heap.Identity
import Mathlib.Data.Fintype.EquivFin
import Mathlib.Data.Fintype.Sum

/-!
# Heaps that differ in their addresses

A renaming gives every address another name, and null its own. Two heaps are renamed into each other when one has all that the other has, in the same order, with every address replaced by its name. No operation on such a pair can tell the heaps apart: handles are resolved to an address and its name, classes, hashes and plain values are the same, and an operation that is refused is refused for the same reason.

Such a pair stays one, but the renaming need not stay the same: an allocation adds an object whose two addresses are unrelated so far, and a collection of one of the heaps gives all its objects new addresses. In both cases there is an injective renaming of the addresses in use, and it extends to all addresses.
-/

namespace KnownObjects

/-! ### Renamings -/

/-- Another name for every address. Null keeps its name. -/
structure Renaming where
  apply : Address → Address
  injective : Function.Injective apply
  null : apply .null = .null

namespace Renaming

instance : CoeFun Renaming fun _ => Address → Address := ⟨apply⟩

def refl : Renaming := ⟨id, Function.injective_id, rfl⟩

variable (ρ : Renaming)

@[simp] theorem apply_eq_iff {a b : Address} : ρ a = ρ b ↔ a = b := ρ.injective.eq_iff

@[simp] theorem apply_eq_null_iff {a : Address} : ρ a = .null ↔ a = .null := by
  refine ⟨fun h => ρ.injective ?_, fun h => ?_⟩
  · rw [h, ρ.null]
  · rw [h, ρ.null]

@[simp] theorem isNull_apply (a : Address) : (ρ a).isNull = a.isNull := by
  rw [Bool.eq_iff_iff, Address.isNull_iff, Address.isNull_iff, apply_eq_null_iff]

end Renaming

instance : Finite Address := .of_injective (fun a : Address => (⟨a.toNat, a.toNat_lt⟩ : Fin 18446744073709551616))
  fun _ _ h => Address.ext_toNat (congrArg Fin.val h)

/-- What is injective on some addresses, null among them, can be made a renaming, since there are only so many addresses. -/
theorem Renaming.exists_extending {used : Set Address} {f : Address → Address} (hnull : .null ∈ used)
    (hf : f .null = .null) (hinj : used.InjOn f) : ∃ ρ : Renaming, ∀ a ∈ used, ρ a = f a := by
  have := Fintype.ofFinite Address
  obtain ⟨g, hg⟩ := Set.MapsTo.exists_equiv_extend_of_card_eq (t := Finset.univ) rfl
    (fun a _ => Finset.mem_coe.2 (Finset.mem_univ (f a))) hinj
  refine ⟨⟨fun a => g a, fun a b h => g.injective (Subtype.ext h), ?_⟩, hg⟩
  rw [hg .null hnull, hf]

/-- A renaming can give an address that is not in use a name that is not in use. -/
theorem Renaming.exists_adding (ρ : Renaming) {used : Set Address} (hnull : .null ∈ used) {a b : Address}
    (ha : a ∉ used) (hb : ∀ x ∈ used, ρ x ≠ b) : ∃ ρ' : Renaming, ρ' a = b ∧ ∀ x ∈ used, ρ' x = ρ x := by
  have hother : ∀ x ∈ used, Function.update ρ a b x = ρ x := by
    rintro x hx
    apply Function.update_of_ne
    rintro rfl
    exact ha hx
  have hinj : (insert a used).InjOn (Function.update ρ a b) := by
    rw [Set.injOn_insert ha]
    refine ⟨ρ.injective.injOn.congr fun x hx => (hother x hx).symm, ?_⟩
    rintro ⟨x, hx, heq⟩
    rw [hother x hx, Function.update_self] at heq
    exact hb x hx heq
  obtain ⟨ρ', hρ'⟩ := exists_extending (Set.mem_insert_of_mem a hnull) ((hother _ hnull).trans ρ.null) hinj
  refine ⟨ρ', ?_, fun x hx => ?_⟩
  · rw [hρ' a (Set.mem_insert a used), Function.update_self]
  · rw [hρ' x (Set.mem_insert_of_mem a hx), hother x hx]

def Value.rename (f : Address → Address) : Value → Value
  | .ref target => .ref (f target)
  | v => v

def Object.rename (f : Address → Address) (o : Object) : Object :=
  { o with address := f o.address, values := o.values.map (Value.rename f) }

def HeapError.rename (f : Address → Address) : HeapError → HeapError
  | .staleAddress a => .staleAddress (f a)
  | .fieldOutOfRange a slot => .fieldOutOfRange (f a) slot
  | e => e

theorem Value.rename_id (v : Value) : v.rename id = v := by
  cases v <;> rfl

theorem Object.rename_id (o : Object) : o.rename id = o :=
  congrArg (Object.mk o.address o.classInfo o.hash) (List.map_id'' Value.rename_id o.values)

theorem Value.rename_rename (f g : Address → Address) (v : Value) : (v.rename f).rename g = v.rename (g ∘ f) := by
  cases v <;> rfl

theorem Object.rename_rename (f g : Address → Address) (o : Object) : (o.rename f).rename g = o.rename (g ∘ f) := by
  simp only [Object.rename, List.map_map, Function.comp_apply]
  congr 2
  funext v
  exact v.rename_rename f g

@[simp] theorem Value.reference?_rename (f : Address → Address) (v : Value) :
    (v.rename f).reference? = v.reference?.map f := by
  cases v <;> rfl

@[simp] theorem Value.fits_rename (f : Address → Address) (v : Value) (field : Field) :
    (v.rename f).fits field = v.fits field := by
  cases v <;> rfl

theorem Value.rename_zeroOf (ρ : Renaming) (field : Field) : (Value.zeroOf field).rename ρ = Value.zeroOf field := by
  unfold Value.zeroOf
  split <;> simp [Value.rename, ρ.null]

/-! ### Handles -/

namespace HandleTable

variable (t : HandleTable)

theorem get?_mapSlots (ρ : Renaming) (h : Handle) : (t.mapSlots ρ).get? h = (t.get? h).map ρ :=
  Valid.get?_mapSlots (fun _ _ => ρ.apply_eq_null_iff) h

theorem insert_mapSlots (f : Address → Address) (a : Address) :
    (t.mapSlots f).insert (f a) = ((t.insert a).1, (t.insert a).2.mapSlots f) := by
  simp only [insert, mapSlots]
  cases t.free with
  | nil => simp
  | cons h rest => simp [Array.map_setIfInBounds]

theorem release_mapSlots (ρ : Renaming) (h : Handle) :
    (t.mapSlots ρ).release h = ((t.release h).1, (t.release h).2.mapSlots ρ) := by
  simp only [release, get?_mapSlots]
  cases t.get? h with
  | none => rfl
  | some a => simp [mapSlots, Array.map_setIfInBounds, ρ.null]

theorem releaseAll_mapSlots (ρ : Renaming) (handles : List Handle) :
    (t.mapSlots ρ).releaseAll handles = ((t.releaseAll handles).1, (t.releaseAll handles).2.mapSlots ρ) := by
  induction handles generalizing t with
  | nil => rfl
  | cons h rest ih => simp only [releaseAll, release_mapSlots, ih]

end HandleTable

namespace Heap

/-- The second heap has all that the first one has, with other addresses. It may also have handed out more of them. -/
structure Renamed (f : Address → Address) (h k : Heap) : Prop where
  id : k.id = h.id
  settings : k.settings = h.settings
  classes : k.classes = h.classes
  objects : k.objects = h.objects.map (Object.rename f)
  hashState : k.hashState = h.hashState
  handles : k.handles = h.handles.mapSlots f
  ahead : h.frontier ≤ k.frontier

theorem Renamed.refl (h : Heap) : Renamed Renaming.refl h h where
  id := rfl
  settings := rfl
  classes := rfl
  objects := (List.map_id'' Object.rename_id h.objects).symm
  hashState := rfl
  handles := congrArg (HandleTable.mk · h.handles.free) (Array.map_id' h.handles.slots).symm
  ahead := Nat.le_refl _

/-- Related answers of two heaps, or refusals for the same reason. -/
abbrev Alike {α β : Type} (f : Address → Address) (R : α → β → Prop) : Except HeapError α → Except HeapError β → Prop :=
  Except.Matched (fun e d => d = HeapError.rename f e) R

namespace Renamed

variable {ρ : Renaming} {h k : Heap}

/-! ### What is read off a heap -/

theorem object? (hk : Renamed ρ h k) (a : Address) : k.object? (ρ a) = (h.object? a).map (Object.rename ρ) := by
  simp only [Heap.object?]
  rw [hk.objects, List.find?_map]
  congr 2
  funext o
  simp [Object.rename, beq_eq_decide]

theorem isLive (hk : Renamed ρ h k) (a : Address) : k.isLive (ρ a) = h.isLive a := by
  simp only [Heap.isLive, hk.object? a, Option.isSome_map]

theorem object (hk : Renamed ρ h k) (a : Address) :
    Alike ρ (fun o p => p = o.rename ρ) (h.object a) (k.object (ρ a)) := by
  simp only [Heap.object, hk.object? a]
  cases h.object? a with
  | none => exact .error rfl
  | some o => exact .ok rfl

theorem resolve (hk : Renamed ρ h k) (handle : Handle) :
    Alike ρ (fun a b => b = ρ a) (h.resolve handle) (k.resolve handle) := by
  simp only [Heap.resolve, hk.handles, HandleTable.get?_mapSlots]
  cases h.handles.get? handle with
  | none => exact .error rfl
  | some a => exact .ok rfl

theorem classOf (hk : Renamed ρ h k) (a : Address) : Alike ρ Eq (h.classOf a) (k.classOf (ρ a)) :=
  (hk.object a).bind_map fun _ => .ok rfl

theorem hashOf (hk : Renamed ρ h k) (a : Address) : Alike ρ Eq (h.hashOf a) (k.hashOf (ρ a)) :=
  (hk.object a).bind_map fun _ => .ok rfl

theorem fieldAt (hk : Renamed ρ h k) (a : Address) (slot : UInt64) :
    Alike ρ (fun v w => w = v.rename ρ) (h.fieldAt a slot) (k.fieldAt (ρ a) slot) := by
  refine (hk.object a).bind_map fun o => ?_
  simp only [Object.rename, List.getElem?_map]
  cases o.values[slot.toNat]? with
  | none => exact .error rfl
  | some v => exact .ok rfl

theorem slotOf (ρ : Renaming) (o : Object) (name : String) :
    Alike ρ Eq (Heap.slotOf o name) (Heap.slotOf (o.rename ρ) name) := by
  simp only [Heap.slotOf, Object.rename]
  cases o.classInfo.slotOf? name with
  | none => exact .error rfl
  | some slot => exact .ok rfl

theorem field (hk : Renamed ρ h k) (a : Address) (name : String) :
    Alike ρ (fun v w => w = v.rename ρ) (h.field a name) (k.field (ρ a) name) := by
  refine (hk.object a).bind_map fun o => ?_
  refine (slotOf ρ o name).bind_eq fun slot => ?_
  exact hk.fieldAt a _

theorem read (hk : Renamed ρ h k) (location : Location) :
    Alike ρ (fun a b => b = ρ a) (h.read location) (k.read location) := by
  cases location with
  | handle handle => exact hk.resolve handle
  | field holder slot =>
    refine (hk.resolve holder).bind_map fun a => ?_
    refine (hk.fieldAt a slot).bind_map fun v => ?_
    rw [Value.reference?_rename]
    cases v.reference? with
    | none => exact .error rfl
    | some target => exact .ok rfl

theorem valueOf (hk : Renamed ρ h k) (new : NewValue) :
    Alike ρ (fun v w => w = v.rename ρ) (h.valueOf new) (k.valueOf new) := by
  cases new with
  | int n | long n => exact .ok rfl
  | null => exact .ok (congrArg Value.ref ρ.null.symm)
  | ref target =>
    refine (hk.resolve target).bind_map fun a => ?_
    exact .ok rfl

/-! ### Changes under which the renaming stays the same -/

theorem define (hk : Renamed ρ h k) (c : ClassInfo) : Renamed ρ (h.define c).2 (k.define c).2 :=
  { hk with classes := congrArg (· ++ [c]) hk.classes }

theorem withHandle (hk : Renamed ρ h k) (a : Address) : Renamed ρ (h.withHandle a) (k.withHandle (ρ a)) :=
  { hk with
    handles := by
      simp only [Heap.withHandle, hk.handles, HandleTable.insert_mapSlots] }

theorem newHandle (hk : Renamed ρ h k) (a : Address) :
    Alike ρ (fun made other => other.1 = made.1 ∧ Renamed ρ made.2 other.2) (h.newHandle a) (k.newHandle (ρ a)) := by
  simp only [Heap.newHandle, hk.isLive a]
  split
  · refine .ok ⟨?_, hk.withHandle a⟩
    rw [hk.handles, HandleTable.insert_mapSlots]
  · exact .error rfl

theorem release (hk : Renamed ρ h k) (handles : List Handle) :
    (k.release handles).1 = (h.release handles).1 ∧ Renamed ρ (h.release handles).2 (k.release handles).2 := by
  simp only [Heap.release, hk.handles, HandleTable.releaseAll_mapSlots]
  exact ⟨trivial, { hk with handles := rfl }⟩

theorem setValue (hk : Renamed ρ h k) (a : Address) (slot : Nat) (v : Value) :
    Renamed ρ (h.setValue a slot v) (k.setValue (ρ a) slot (v.rename ρ)) := by
  refine { hk with objects := ?_ }
  simp only [Heap.setValue, hk.objects, List.map_map]
  congr 1
  funext o
  by_cases ho : o.address = a
  · simp [Object.rename, ho]
  · simp [Object.rename, ho]

theorem store (hk : Renamed ρ h k) (holder : Handle) (name : String) (new : NewValue) :
    Alike ρ (Renamed ρ) (h.store holder name new) (k.store holder name new) := by
  refine (hk.resolve holder).bind_map fun a => ?_
  refine (hk.valueOf new).bind_map fun v => ?_
  refine (hk.object a).bind_map fun o => ?_
  refine (slotOf ρ o name).bind_eq fun slot => ?_
  simp only [Object.rename, Value.fits_rename]
  split
  · split
    · exact .ok (hk.setValue a slot v)
    · exact .error rfl
  · exact .error rfl

end Renamed

/-! ### Changes of the renaming -/

/-- The addresses at which an object lies, and null. -/
def used (h : Heap) : Set Address := {a | a = .null ∨ h.isLive a = true}

theorem null_mem_used (h : Heap) : .null ∈ h.used := Or.inl rfl

namespace WellFormed

variable {h : Heap}

theorem ofNat_frontier_not_mem_used (hh : h.WellFormed) (hspace : h.WithinSpace) : Address.ofNat h.frontier ∉ h.used := by
  have hnat : (Address.ofNat h.frontier).toNat = h.frontier := Address.toNat_ofNat hspace
  have hstarted := hh.started
  rintro (hnull | hlive)
  · rw [hnull, Address.toNat_null] at hnat
    omega
  · obtain ⟨o, ho, haddress⟩ := isLive_iff.1 hlive
    have hplaced := (hh.placed o ho).2
    rw [haddress, hnat] at hplaced
    omega

/-- Only the names of the addresses in use matter. -/
theorem map_rename_congr (hh : h.WellFormed) {f g : Address → Address} (hagree : ∀ a ∈ h.used, g a = f a) :
    h.objects.map (Object.rename g) = h.objects.map (Object.rename f) := by
  apply List.map_congr_left
  intro o ho
  have haddress : g o.address = f o.address := hagree _ (Or.inr (isLive_of_mem ho))
  have hvalues : o.values.map (Value.rename g) = o.values.map (Value.rename f) := by
    apply List.map_congr_left
    intro v hv
    cases v with
    | ref target => exact congrArg Value.ref (hagree target (hh.references o ho target hv))
    | int n | long n => rfl
  rw [Object.rename, Object.rename, haddress, hvalues]

theorem injOn_relocate (hh : h.WellFormed) (hspace : h.collect.2.WithinSpace) : h.used.InjOn h.relocate := by
  have hstays : ∀ {a}, h.isLive a = true → h.relocate a ≠ .null := by
    intro a ha hnull
    exact hh.ne_null_of_isLive ha ((hh.relocate_eq_null_iff hspace (Or.inr ha)).1 hnull)
  rintro a (rfl | ha) b (rfl | hb) heq
  · rfl
  · rw [hh.relocate_null] at heq
    exact absurd heq.symm (hstays hb)
  · rw [hh.relocate_null] at heq
    exact absurd heq (hstays ha)
  · obtain ⟨m, hm⟩ := exists_number?_iff.2 ha
    obtain ⟨n, hn⟩ := exists_number?_iff.2 hb
    have hmoved := hh.number?_relocate hspace hm
    rw [heq, hh.number?_relocate hspace hn] at hmoved
    obtain rfl := Option.some.inj hmoved
    exact number?_inj hm hn

end WellFormed

/-- A collection is a renaming, though not always one of all addresses. -/
theorem objects_collect (h : Heap) : h.collect.2.objects = h.objects.map (Object.rename h.relocate) := rfl

namespace Renamed

variable {ρ : Renaming} {h k : Heap}

theorem congr {f g : Address → Address} (hk : Renamed f h k) (hh : h.WellFormed) (hagree : ∀ a ∈ h.used, g a = f a) :
    Renamed g h k := by
  refine { hk with objects := ?_, handles := ?_ }
  · rw [hk.objects, hh.map_rename_congr hagree]
  · rw [hk.handles]
    simp only [HandleTable.mapSlots]
    congr 1
    exact Array.map_congr_left fun a ha => (hagree a (hh.handles_live a ha)).symm

theorem mem_used (hk : Renamed ρ h k) {a : Address} (ha : a ∈ h.used) : ρ a ∈ k.used := by
  rcases ha with rfl | ha
  · exact Or.inl ρ.null
  · exact Or.inr ((hk.isLive a).trans ha)

theorem instantiate_of_apply (hk : Renamed ρ h k) (hnext : ρ (Address.ofNat h.frontier) = Address.ofNat k.frontier)
    (c : ClassInfo) :
    (k.instantiate c).1 = (h.instantiate c).1 ∧ Renamed ρ (h.instantiate c).2 (k.instantiate c).2 := by
  have hzero : (c.fields.map Value.zeroOf).map (Value.rename ρ) = c.fields.map Value.zeroOf := by
    rw [List.map_map]
    exact List.map_congr_left fun field _ => Value.rename_zeroOf ρ field
  have hahead := hk.ahead
  simp only [Heap.instantiate, hk.handles, ← hnext, HandleTable.insert_mapSlots, true_and]
  refine { hk with objects := ?_, hashState := ?_, handles := rfl, ahead := ?_ }
  · simp only [hk.objects, hk.hashState, List.map_append, List.map_cons, List.map_nil, Object.rename, hzero]
  · simp only [hk.hashState]
  · simp only [hk.settings]
    omega

/-- The two new objects lie at addresses that are not in use, so each can be the name of the other. -/
theorem instantiate (hk : Renamed ρ h k) (hh : h.WellFormed) (hwk : k.WellFormed) (hspace : k.WithinSpace)
    (c : ClassInfo) : (k.instantiate c).1 = (h.instantiate c).1 ∧
      ∃ ρ' : Renaming, Renamed ρ' (h.instantiate c).2 (k.instantiate c).2 := by
  have hspace' : h.WithinSpace := Nat.lt_of_le_of_lt hk.ahead hspace
  obtain ⟨ρ', hnext, hagree⟩ := ρ.exists_adding h.null_mem_used (hh.ofNat_frontier_not_mem_used hspace')
    (b := Address.ofNat k.frontier) fun a ha heq => hwk.ofNat_frontier_not_mem_used hspace (heq ▸ hk.mem_used ha)
  have hk' : Renamed ρ' h k := hk.congr hh hagree
  exact ⟨(hk'.instantiate_of_apply hnext c).1, ρ', (hk'.instantiate_of_apply hnext c).2⟩

/-- A collection moves no two objects to the same address, nor any to null. -/
theorem collect (hk : Renamed ρ h k) (hh : h.WellFormed) (hwk : k.WellFormed) (hspace : k.collect.2.WithinSpace) :
    ∃ ρ' : Renaming, Renamed ρ' h k.collect.2 := by
  have hmoved : Renamed (k.relocate ∘ ρ) h k.collect.2 := by
    refine { hk with objects := ?_, handles := ?_, ahead := hk.ahead.trans (le_frontierAfter _ _ _) }
    · rw [objects_collect, hk.objects, List.map_map]
      exact List.map_congr_left fun o _ => o.rename_rename ρ k.relocate
    · show k.handles.mapSlots k.relocate = _
      rw [hk.handles]
      simp only [HandleTable.mapSlots, Array.map_map]
  have hinj : h.used.InjOn (k.relocate ∘ ρ) := by
    intro a ha b hb heq
    exact ρ.injective (hwk.injOn_relocate hspace (hk.mem_used ha) (hk.mem_used hb) heq)
  have hnull : (k.relocate ∘ ρ) .null = .null := by
    rw [Function.comp_apply, ρ.null, hwk.relocate_null]
  obtain ⟨ρ', hagree⟩ := Renaming.exists_extending h.null_mem_used hnull hinj
  exact ⟨ρ', hmoved.congr hh hagree⟩

end Renamed

end Heap

end KnownObjects
