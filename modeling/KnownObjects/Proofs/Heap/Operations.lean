import KnownObjects.Proofs.Heap.WellFormed

/-!
# Every operation keeps a heap well formed

`Change` says once what can happen to a heap: what an operation does, and also what a table does when it makes a handle for an object that it has found. Each change that stays within the address space keeps a heap well formed, so every reached heap is well formed.
-/

namespace KnownObjects.Heap

/-- The heap with one more handle, for what lies at an address. -/
def withHandle (h : Heap) (a : Address) : Heap := { h with handles := (h.handles.insert a).2 }

/-- One change of a heap, with the handles that it gives back. -/
inductive Change (h : Heap) : List Handle → Heap → Prop
  | none : Change h [] h
  | defined (c : ClassInfo) : Change h [] (h.define c).2
  | allocated (c : ClassInfo) : Change h [] (h.instantiate c).2
  | stored (a : Address) (slot : Nat) (v : Value) :
    (∀ b, v = .ref b → b = .null ∨ ∃ handle, h.resolve handle = .ok b) → Change h [] (h.setValue a slot v)
  | collected : Change h [] h.collect.2
  | bound (a : Address) : h.isLive a = true → Change h [] (h.withHandle a)
  | released (handles : List Handle) : Change h handles (h.release handles).2

def Operation.released : Operation → List Handle
  | .release handles => handles
  | _ => []

theorem newHandle_eq_ok_iff {h heap : Heap} {a : Address} {handle : Handle} :
    h.newHandle a = .ok (handle, heap) ↔
      h.isLive a = true ∧ handle = (h.handles.insert a).1 ∧ heap = h.withHandle a := by
  simp only [newHandle]
  split
  · rename_i hlive
    simp [hlive, withHandle, eq_comm]
  · rename_i hlive
    simp [hlive]

theorem valueOf_eq_ok {h : Heap} {new : NewValue} {v : Value} (hvalue : h.valueOf new = .ok v) {b : Address}
    (hv : v = .ref b) : b = .null ∨ ∃ handle, h.resolve handle = .ok b := by
  subst hv
  cases new with
  | int n => simp [valueOf] at hvalue
  | long n => simp [valueOf] at hvalue
  | null =>
    left
    simpa [valueOf, eq_comm] using hvalue
  | ref target =>
    obtain ⟨a, ha, heq⟩ := Except.bind_eq_ok_iff.1 hvalue
    have hab : a = b := by simpa [pure, Except.pure] using heq
    exact Or.inr ⟨target, hab ▸ ha⟩

/-- What a store that is not refused has found, and what it leaves. -/
theorem exists_of_store_eq_ok {h heap : Heap} {holder : Handle} {name : String} {new : NewValue}
    (hstore : h.store holder name new = .ok heap) : ∃ a o slot f v, h.resolve holder = .ok a ∧ h.object a = .ok o ∧
      h.valueOf new = .ok v ∧ o.classInfo.slotOf? name = some slot ∧ o.classInfo.fields[slot]? = some f ∧
      v.fits f = true ∧ heap = h.setValue a slot v := by
  obtain ⟨a, hholder, hstore⟩ := Except.bind_eq_ok_iff.1 hstore
  obtain ⟨v, hvalue, hstore⟩ := Except.bind_eq_ok_iff.1 hstore
  obtain ⟨o, hobject, hstore⟩ := Except.bind_eq_ok_iff.1 hstore
  obtain ⟨slot, hslot, hstore⟩ := Except.bind_eq_ok_iff.1 hstore
  have hslot? : o.classInfo.slotOf? name = some slot := by
    unfold slotOf at hslot
    split at hslot
    · rename_i hsome
      exact hsome.trans (congrArg some (Except.ok.inj hslot))
    · cases hslot
  split at hstore
  · rename_i f hfield
    split at hstore
    · rename_i hfits
      exact ⟨a, o, slot, f, v, hholder, hobject, hvalue, hslot?, hfield, hfits, (Except.ok.inj hstore).symm⟩
    · cases hstore
  · cases hstore

/-- A store that is not refused replaces one value. -/
theorem store_eq_ok {h heap : Heap} {holder : Handle} {field : String} {new : NewValue}
    (hstore : h.store holder field new = .ok heap) :
    ∃ a slot v, heap = h.setValue a slot v ∧ ∀ b, v = .ref b → b = .null ∨ ∃ handle, h.resolve handle = .ok b := by
  obtain ⟨a, -, slot, -, v, -, -, hvalue, -, -, -, hheap⟩ := exists_of_store_eq_ok hstore
  exact ⟨a, slot, v, hheap, fun b => valueOf_eq_ok hvalue⟩

theorem perform_change (h : Heap) (operation : Operation) :
    Change h operation.released (h.perform operation).2 := by
  cases operation with
  | define c => exact .defined c
  | allocate classId =>
    simp only [perform, allocate]
    cases h.classes[classId]? with
    | none => exact .none
    | some c => exact .allocated c
  | store holder field value =>
    simp only [perform]
    cases hstore : h.store holder field value with
    | error e => exact .none
    | ok heap =>
      obtain ⟨a, slot, v, rfl, hv⟩ := store_eq_ok hstore
      exact .stored a slot v hv
  | collect => exact .collected
  | newHandle object =>
    simp only [perform]
    cases hnew : h.newHandle object with
    | error e => exact .none
    | ok made =>
      obtain ⟨hlive, -, hheap⟩ := newHandle_eq_ok_iff.1 hnew
      rw [hheap]
      exact .bound object hlive
  | release handles => exact .released handles

theorem Change.id_eq {h heap : Heap} {hs : List Handle} (hchange : Change h hs heap) : heap.id = h.id := by
  cases hchange <;> rfl

/-! ### The changes, one by one -/

/-- A heap is created with settings that pass the check, and nothing lies on it. -/
theorem create_eq_ok_iff {id : HeapId} {settings : Settings} {h : Heap} : create id settings = .ok h ↔
    settings.check = .ok () ∧ h = ⟨id, settings, [], [], settings.base.toNat, settings.seed, .empty, 0⟩ := by
  simp only [create]
  cases settings.check with
  | ok => exact ⟨fun hmade => ⟨rfl, (Except.ok.inj hmade).symm⟩, fun hmade => hmade.2 ▸ rfl⟩
  | error e => exact ⟨fun hmade => (nomatch hmade), fun hmade => (nomatch hmade.1)⟩

theorem create_wellFormed {id : HeapId} {settings : Settings} {h : Heap} (hcreate : create id settings = .ok h) :
    h.WellFormed := by
  obtain ⟨hcheck, rfl⟩ := create_eq_ok_iff.1 hcreate
  unfold Settings.check at hcheck
  have hbase : 0 < settings.base.toNat := by
    by_contra hzero
    have hbase : settings.base = 0 := UInt64.toNat_inj.1 (by simpa using hzero)
    simp [hbase] at hcheck
  have haligned : 0 < settings.alignment.toNat := by
    by_contra hzero
    have halignment : settings.alignment = 0 := UInt64.toNat_inj.1 (by simpa using hzero)
    by_cases hzero : settings.base = 0
    · simp [hzero] at hcheck
    · simp [halignment, hzero] at hcheck
  exact {
    aligned := haligned
    started := hbase
    placed := by simp
    ordered := List.Pairwise.nil
    shaped := by simp
    references := by simp
    handles_valid := HandleTable.empty_valid
    handles_live := by simp [HandleTable.empty] }

namespace WellFormed

variable {h : Heap}

/-- Other handles, of which the live ones lead to objects of the heap. -/
theorem withHandles (hh : h.WellFormed) {t : HandleTable} (hvalid : t.Valid)
    (hlive : ∀ a ∈ t.slots, a = .null ∨ h.isLive a = true) : { h with handles := t }.WellFormed where
  aligned := hh.aligned
  started := hh.started
  placed := hh.placed
  ordered := hh.ordered
  shaped := hh.shaped
  references := hh.references
  handles_valid := hvalid
  handles_live := hlive

theorem withHandle (hh : h.WellFormed) {a : Address} (ha : h.isLive a = true) : (h.withHandle a).WellFormed := by
  apply hh.withHandles (hh.handles_valid.insert_valid (hh.ne_null_of_isLive ha))
  intro b hb
  rcases HandleTable.Valid.slots_insert h.handles hb with rfl | hb
  · exact Or.inr ha
  · exact hh.handles_live b hb

theorem release (hh : h.WellFormed) (handles : List Handle) : (h.release handles).2.WellFormed := by
  apply hh.withHandles (hh.handles_valid.releaseAll_valid handles)
  intro b hb
  rcases HandleTable.Valid.slots_releaseAll hb with rfl | hb
  · exact Or.inl rfl
  · exact hh.handles_live b hb

theorem define (hh : h.WellFormed) (c : ClassInfo) : (h.define c).2.WellFormed where
  aligned := hh.aligned
  started := hh.started
  placed := hh.placed
  ordered := hh.ordered
  shaped := hh.shaped
  references := hh.references
  handles_valid := hh.handles_valid
  handles_live := hh.handles_live

end WellFormed

theorem mem_objects_instantiate {h : Heap} {c : ClassInfo} {o : Object} (ho : o ∈ (h.instantiate c).2.objects) :
    o ∈ h.objects ∨
      o.address = Address.ofNat h.frontier ∧ o.classInfo = c ∧ o.values = c.fields.map Value.zeroOf := by
  rcases List.mem_append.1 ho with ho | ho
  · exact Or.inl ho
  · rw [List.mem_singleton] at ho
    subst ho
    exact Or.inr ⟨rfl, rfl, rfl⟩

theorem isLive_instantiate {h : Heap} {a : Address} (c : ClassInfo) (ha : h.isLive a = true) :
    (h.instantiate c).2.isLive a = true := by
  obtain ⟨o, ho, haddress⟩ := isLive_iff.1 ha
  exact isLive_iff.2 ⟨o, List.mem_append_left _ ho, haddress⟩

theorem isLive_instantiate_self (h : Heap) (c : ClassInfo) :
    (h.instantiate c).2.isLive (Address.ofNat h.frontier) = true :=
  isLive_iff.2 ⟨_, List.mem_append_right _ List.mem_cons_self, rfl⟩

/-- A field that nothing was stored in refers to nothing. -/
theorem eq_null_of_zeroOf {f : Field} {a : Address} (hzero : Value.zeroOf f = .ref a) : a = .null := by
  unfold Value.zeroOf at hzero
  split at hzero <;> simp_all

theorem mem_objects_setValue {h : Heap} {a : Address} {slot : Nat} {v : Value} {o : Object}
    (ho : o ∈ (h.setValue a slot v).objects) :
    ∃ p ∈ h.objects, o.address = p.address ∧ o.classInfo = p.classInfo ∧
      (o.values = p.values ∨ o.values = p.values.set slot v) := by
  obtain ⟨p, hp, rfl⟩ := List.mem_map.1 ho
  refine ⟨p, hp, ?_⟩
  split
  · exact ⟨rfl, rfl, Or.inr rfl⟩
  · exact ⟨rfl, rfl, Or.inl rfl⟩

@[simp] theorem isLive_setValue (h : Heap) (a : Address) (slot : Nat) (v : Value) (b : Address) :
    (h.setValue a slot v).isLive b = h.isLive b := by
  rw [Bool.eq_iff_iff, isLive_iff, isLive_iff]
  constructor
  · rintro ⟨o, ho, haddress⟩
    obtain ⟨p, hp, hsame, -⟩ := mem_objects_setValue ho
    exact ⟨p, hp, hsame.symm.trans haddress⟩
  · rintro ⟨p, hp, rfl⟩
    refine ⟨_, List.mem_map_of_mem hp, ?_⟩
    split <;> rfl

namespace WellFormed

variable {h : Heap}

theorem instantiate (hh : h.WellFormed) (c : ClassInfo) (hspace : (h.instantiate c).2.WithinSpace) :
    (h.instantiate c).2.WellFormed := by
  have hstarted := hh.started
  have hfoot := footprint_pos hh.aligned (c.fields.map Value.zeroOf).length
  change h.frontier + h.settings.footprint (c.fields.map Value.zeroOf).length < 18446744073709551616 at hspace
  have hnat : (Address.ofNat h.frontier).toNat = h.frontier := Address.toNat_ofNat (by omega)
  have hne : Address.ofNat h.frontier ≠ .null := by
    intro hnull
    rw [hnull, Address.toNat_null] at hnat
    omega
  constructor
  case aligned => exact hh.aligned
  case started => exact Nat.lt_of_lt_of_le hstarted (Nat.le_add_right _ _)
  case placed =>
    intro o ho
    show 0 < o.address.toNat ∧ o.address.toNat < h.frontier + h.settings.footprint (c.fields.map Value.zeroOf).length
    rcases mem_objects_instantiate ho with ho | ⟨haddress, -, -⟩
    · have hplaced := hh.placed o ho
      omega
    · rw [haddress, hnat]
      omega
  case ordered =>
    refine List.pairwise_append.2 ⟨hh.ordered, List.pairwise_singleton _ _, fun o ho p hp => ?_⟩
    rw [List.mem_singleton] at hp
    subst hp
    rw [hnat]
    exact (hh.placed o ho).2
  case shaped =>
    intro o ho
    rcases mem_objects_instantiate ho with ho | ⟨-, hclass, hvalues⟩
    · exact hh.shaped o ho
    · rw [hclass, hvalues, List.length_map]
  case references =>
    intro o ho a ha
    rcases mem_objects_instantiate ho with ho | ⟨-, -, hvalues⟩
    · exact (hh.references o ho a ha).imp_right (isLive_instantiate c)
    · rw [hvalues, List.mem_map] at ha
      obtain ⟨f, -, hzero⟩ := ha
      exact Or.inl (eq_null_of_zeroOf hzero)
  case handles_valid =>
    exact hh.handles_valid.insert_valid hne
  case handles_live =>
    intro a ha
    rcases HandleTable.Valid.slots_insert h.handles ha with rfl | ha
    · exact Or.inr (isLive_instantiate_self h c)
    · exact (hh.handles_live a ha).imp_right (isLive_instantiate c)

theorem setValue (hh : h.WellFormed) {a : Address} {slot : Nat} {v : Value}
    (hv : ∀ b, v = .ref b → b = .null ∨ ∃ handle, h.resolve handle = .ok b) : (h.setValue a slot v).WellFormed := by
  constructor
  case aligned => exact hh.aligned
  case started => exact hh.started
  case handles_valid => exact hh.handles_valid
  case placed =>
    intro o ho
    obtain ⟨p, hp, haddress, -, -⟩ := mem_objects_setValue ho
    rw [haddress]
    exact hh.placed p hp
  case ordered =>
    refine List.pairwise_map.2 (hh.ordered.imp ?_)
    intro o p hlt
    split <;> split <;> exact hlt
  case shaped =>
    intro o ho
    obtain ⟨p, hp, -, hclass, hvalues⟩ := mem_objects_setValue ho
    rw [hclass, ← hh.shaped p hp]
    rcases hvalues with hvalues | hvalues
    · rw [hvalues]
    · rw [hvalues, List.length_set]
  case references =>
    intro o ho b hb
    obtain ⟨p, hp, -, -, hvalues⟩ := mem_objects_setValue ho
    rw [isLive_setValue]
    rcases hvalues with hvalues | hvalues
    · exact hh.references p hp b (hvalues ▸ hb)
    · rw [hvalues] at hb
      rcases List.mem_or_eq_of_mem_set hb with hb | hb
      · exact hh.references p hp b hb
      · apply (hv b hb.symm).imp_right
        rintro ⟨handle, hresolve⟩
        exact hh.isLive_of_resolve hresolve
  case handles_live =>
    intro b hb
    rw [isLive_setValue]
    exact hh.handles_live b hb

end WellFormed

/-- Where the next collection moves what lies at an address. -/
def relocate (h : Heap) : Address → Address := forward (moves h.settings h.frontier h.objects)

theorem isLive_collect {h : Heap} {a : Address} (ha : h.isLive a = true) :
    h.collect.2.isLive (h.relocate a) = true := by
  obtain ⟨o, ho, rfl⟩ := isLive_iff.1 ha
  exact isLive_iff.2 ⟨_, List.mem_map_of_mem ho, rfl⟩

namespace WellFormed

variable {h : Heap}

theorem relocate_null (hh : h.WellFormed) : h.relocate .null = .null := by
  apply forward_of_not_mem
  intro hmem
  obtain ⟨o, ho, hnull⟩ := List.mem_map.1 hmem
  have hpos := (hh.placed o ho).1
  rw [hnull] at hpos
  exact Nat.lt_irrefl _ hpos

theorem bounds_relocate (hh : h.WellFormed) (hspace : h.collect.2.WithinSpace) {o : Object} (ho : o ∈ h.objects) :
    h.frontier ≤ (h.relocate o.address).toNat ∧ (h.relocate o.address).toNat < h.collect.2.frontier :=
  bounds_forward hh.aligned hspace hh.distinct ho

theorem relocate_eq_null_iff (hh : h.WellFormed) (hspace : h.collect.2.WithinSpace) {a : Address}
    (ha : a = .null ∨ h.isLive a = true) : h.relocate a = .null ↔ a = .null := by
  refine ⟨fun hnull => ?_, fun hnull => hnull ▸ hh.relocate_null⟩
  rcases ha with ha | ha
  · exact ha
  · obtain ⟨o, ho, rfl⟩ := isLive_iff.1 ha
    have hbounds := hh.bounds_relocate hspace ho
    have hstarted := hh.started
    rw [hnull, Address.toNat_null] at hbounds
    omega

theorem live_relocate (hh : h.WellFormed) {a : Address} (ha : a = .null ∨ h.isLive a = true) :
    h.relocate a = .null ∨ h.collect.2.isLive (h.relocate a) = true := by
  rcases ha with rfl | ha
  · exact Or.inl hh.relocate_null
  · exact Or.inr (isLive_collect ha)

theorem collect (hh : h.WellFormed) (hspace : h.collect.2.WithinSpace) : h.collect.2.WellFormed := by
  constructor
  case aligned => exact hh.aligned
  case started => exact Nat.lt_of_lt_of_le hh.started (le_frontierAfter _ _ _)
  case placed =>
    intro o ho
    obtain ⟨p, hp, rfl⟩ := List.mem_map.1 ho
    have hbounds := hh.bounds_relocate hspace hp
    exact ⟨Nat.lt_of_lt_of_le hh.started hbounds.1, hbounds.2⟩
  case ordered =>
    apply List.pairwise_map.2
    have hmoved := pairwise_moves hh.aligned hspace
    rw [← map_forward hh.distinct, List.pairwise_map] at hmoved
    exact hmoved
  case shaped =>
    intro o ho
    obtain ⟨p, hp, rfl⟩ := List.mem_map.1 ho
    rw [List.length_map]
    exact hh.shaped p hp
  case references =>
    intro o ho a ha
    obtain ⟨p, hp, rfl⟩ := List.mem_map.1 ho
    obtain ⟨v, hv, hforward⟩ := List.mem_map.1 ha
    cases v with
    | ref target =>
      have htarget : h.relocate target = a := by simpa [forwardValue, relocate] using hforward
      rw [← htarget]
      exact hh.live_relocate (hh.references p hp target hv)
    | int n => simp [forwardValue] at hforward
    | long n => simp [forwardValue] at hforward
  case handles_valid =>
    exact hh.handles_valid.mapSlots_valid fun a ha => hh.relocate_eq_null_iff hspace (hh.handles_live a ha)
  case handles_live =>
    intro a ha
    obtain ⟨b, hb, rfl⟩ := Array.mem_map.1 ha
    exact hh.live_relocate (hh.handles_live b hb)

/-- A change that stays within the address space keeps a heap well formed. -/
theorem change (hh : h.WellFormed) {handles : List Handle} {heap : Heap} (hchange : Change h handles heap)
    (hspace : heap.WithinSpace) : heap.WellFormed := by
  cases hchange with
  | none => exact hh
  | defined c => exact hh.define c
  | allocated c => exact hh.instantiate c hspace
  | stored a slot v hv => exact hh.setValue hv
  | collected => exact hh.collect hspace
  | bound a ha => exact hh.withHandle ha
  | released => exact hh.release handles

end WellFormed

theorem Reached.wellFormed {h : Heap} (hreached : h.Reached) : h.WellFormed := by
  induction hreached with
  | created hcreate => exact create_wellFormed hcreate
  | performed operation _ hspace ih => exact ih.change (perform_change _ operation) hspace

end KnownObjects.Heap
