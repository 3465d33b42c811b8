import KnownObjects.Proofs.Heap.Operations

/-!
# Heaps that differ in their handles

Two heaps with the same objects may have handed out different handles for them. What they agree on are the handles of mutators, which lead to the same places on both. A mutator cannot tell such heaps apart: what it reads and stores through its handles is the same, and both heaps stay alike when it stores and when a collection moves their objects. Handles of others may come and go on one of them alone.
-/

namespace KnownObjects

/-- The handle through which a location is found. -/
def Location.root : Location → Handle
  | handle h => h
  | field holder _ => holder

def NewValue.handle? : NewValue → Option Handle
  | ref h => some h
  | _ => none

namespace Heap

/-- Both handles are live, and lead to the same address. -/
def SameTarget (g h : Heap) (k j : Handle) : Prop := ∃ a, g.resolve k = .ok a ∧ h.resolve j = .ok a

structure Rehandled (owned : List Handle) (g h : Heap) : Prop where
  same : h = { g with handles := h.handles }
  owned : ∀ k ∈ owned, g.SameTarget h k k
  formed : g.WellFormed
  other : h.WellFormed

theorem resolve_congr {g h : Heap} {k : Handle} (heq : g.handles.get? k = h.handles.get? k) :
    g.resolve k = h.resolve k := by
  simp only [resolve, heq]

theorem SameTarget.of_resolve_eq {g g' h h' : Heap} {k j : Handle} (hkj : g.SameTarget h k j)
    (hk : g'.resolve k = g.resolve k) (hj : h'.resolve j = h.resolve j) : g'.SameTarget h' k j := by
  obtain ⟨a, hga, hha⟩ := hkj
  exact ⟨a, hk.trans hga, hj.trans hha⟩

theorem SameTarget.resolve_eq {g h : Heap} {k j : Handle} (hkj : g.SameTarget h k j) : h.resolve j = g.resolve k := by
  obtain ⟨a, hga, hha⟩ := hkj
  rw [hga, hha]

theorem SameTarget.refl {h : Heap} {k : Handle} {a : Address} (hk : h.resolve k = .ok a) : h.SameTarget h k k :=
  ⟨a, hk, hk⟩

namespace Rehandled

variable {owned : List Handle} {g h : Heap}

/-! ### Reading -/

theorem id_eq (hs : g.Rehandled owned h) : h.id = g.id := by rw [hs.same]

theorem object_eq (hs : g.Rehandled owned h) (a : Address) : h.object a = g.object a := by
  rw [hs.same]
  rfl

theorem isLive_eq (hs : g.Rehandled owned h) (a : Address) : h.isLive a = g.isLive a := by
  rw [hs.same]
  rfl

theorem read_eq (hs : g.Rehandled owned h) {location : Location} (hl : location.root ∈ owned) :
    h.read location = g.read location := by
  have hroot := (hs.owned _ hl).resolve_eq
  cases location with
  | handle k => exact hroot
  | field holder slot =>
    change h.resolve holder = g.resolve holder at hroot
    simp only [read, fieldAt, hroot, hs.object_eq]

theorem valueOf_eq (hs : g.Rehandled owned h) {new : NewValue} (hnew : ∀ k, new.handle? = some k → k ∈ owned) :
    h.valueOf new = g.valueOf new := by
  cases new with
  | int | long | null => rfl
  | ref target => simp only [valueOf, (hs.owned target (hnew target rfl)).resolve_eq]

/-! ### What mutators do -/

/-- A store through handles of mutators is refused for the same reason on both heaps, or does the same. -/
theorem store_eq (hs : g.Rehandled owned h) {holder : Handle} (hholder : holder ∈ owned) (name : String)
    {new : NewValue} (hnew : ∀ k, new.handle? = some k → k ∈ owned) :
    h.store holder name new = (fun g' => { g' with handles := h.handles }) <$> g.store holder name new := by
  have hset : ∀ a slot v, h.setValue a slot v = { g.setValue a slot v with handles := h.handles } := by
    intro a slot v
    rw [hs.same]
    rfl
  simp only [Heap.store, (hs.owned holder hholder).resolve_eq, hs.valueOf_eq hnew, hs.object_eq, hset, map_bind]
  refine bind_congr fun a => bind_congr fun v => bind_congr fun o => bind_congr fun slot => ?_
  cases o.classInfo.fields[slot]? with
  | none => rfl
  | some f =>
    simp only
    split <;> rfl

/-- A store is at most one change of one value, the same on both heaps. -/
theorem store (hs : g.Rehandled owned h) {holder : Handle} (hholder : holder ∈ owned) (name : String)
    {new : NewValue} (hnew : ∀ k, new.handle? = some k → k ∈ owned) :
    (h.perform (.store holder name new)).2 =
        { (g.perform (.store holder name new)).2 with handles := h.handles } ∧
      (g.perform (.store holder name new)).2.handles = g.handles := by
  simp only [perform, hs.store_eq hholder name hnew]
  cases hstore : g.store holder name new with
  | error e => exact ⟨hs.same, rfl⟩
  | ok g' =>
    obtain ⟨a, slot, v, rfl, -⟩ := store_eq_ok hstore
    exact ⟨rfl, rfl⟩

/-- Where a collection moves objects has nothing to do with handles. -/
theorem collect (hs : g.Rehandled owned h) :
    h.collect.2 = { g.collect.2 with handles := h.handles.mapSlots g.relocate } := by
  rw [hs.same]
  rfl

/-! ### Other handles -/

/-- Handles may come and go on either heap, so long as those of mutators stay. -/
theorem rehandle (hs : g.Rehandled owned h) {t u : HandleTable} (hformed : { g with handles := t }.WellFormed)
    (hother : { h with handles := u }.WellFormed) (hleft : ∀ k ∈ owned, t.get? k = g.handles.get? k)
    (hright : ∀ k ∈ owned, u.get? k = h.handles.get? k) :
    { g with handles := t }.Rehandled owned { h with handles := u } where
  same := by
    rw [hs.same]
  owned k hk := by
    exact (hs.owned k hk).of_resolve_eq (resolve_congr (hleft k hk)) (resolve_congr (hright k hk))
  formed := hformed
  other := hother

end Rehandled

/-! ### Handles for the same object -/

theorem resolve_withHandle {h : Heap} (hh : h.WellFormed) (a : Address) {k : Handle} {b : Address}
    (hk : h.resolve k = .ok b) : (h.withHandle a).resolve k = .ok b :=
  resolve_eq_ok_iff.2 (hh.handles_valid.get?_insert_of_get? (resolve_eq_ok_iff.1 hk))

theorem resolve_withHandle_self {h : Heap} (hh : h.WellFormed) {a : Address} (ha : h.isLive a = true)
    (hroom : h.handles.slots.size < 4294967296) : (h.withHandle a).resolve (h.handles.insert a).1 = .ok a :=
  resolve_eq_ok_iff.2 (hh.handles_valid.get?_insert_self (hh.ne_null_of_isLive ha) hroom)

theorem SameTarget.withHandle {owned : List Handle} {g h : Heap} (hs : g.Rehandled owned h) (a : Address) {k j : Handle}
    (hkj : g.SameTarget h k j) : (g.withHandle a).SameTarget (h.withHandle a) k j := by
  obtain ⟨b, hgb, hhb⟩ := hkj
  exact ⟨b, resolve_withHandle hs.formed a hgb, resolve_withHandle hs.other a hhb⟩

theorem Rehandled.withHandle {owned : List Handle} {g h : Heap} (hs : g.Rehandled owned h) {a : Address}
    (ha : g.isLive a = true) : (g.withHandle a).Rehandled owned (h.withHandle a) where
  same := by
    rw [hs.same]
    rfl
  owned k hk := (hs.owned k hk).withHandle hs a
  formed := hs.formed.withHandle ha
  other := hs.other.withHandle (hs.isLive_eq a ▸ ha)

/-! ### Steps of both heaps -/

/-- An operation of mutators that make no handles and give none back. -/
def Operation.Settled (owned : List Handle) : Operation → Prop
  | store holder _ new => holder ∈ owned ∧ ∀ k, new.handle? = some k → k ∈ owned
  | collect => True
  | _ => False

/-- What handles lead to is the same on both heaps after a collection if it was before. -/
theorem SameTarget.collect {owned : List Handle} {g h : Heap} (hs : g.Rehandled owned h) (hspace : g.collect.2.WithinSpace)
    {k j : Handle} (hkj : g.SameTarget h k j) : g.collect.2.SameTarget h.collect.2 k j := by
  obtain ⟨a, hga, hha⟩ := hkj
  have hright : h.collect.2.WithinSpace := by
    rw [hs.collect]
    exact hspace
  have hmoved : ∀ {heap : Heap}, heap.WellFormed → heap.collect.2.WithinSpace → ∀ {n : Handle},
      heap.resolve n = .ok a → heap.collect.2.resolve n = .ok (heap.relocate a) := by
    intro heap hformed hwithin n hn
    have hnull := fun b hb => hformed.relocate_eq_null_iff hwithin (hformed.handles_live b hb)
    rw [resolve_eq_ok_iff] at hn ⊢
    exact (HandleTable.Valid.get?_mapSlots hnull n).trans (by rw [hn]; rfl)
  have hrelocate : h.relocate = g.relocate := by
    rw [hs.same]
    rfl
  exact ⟨g.relocate a, hmoved hs.formed hspace hga, hrelocate ▸ hmoved hs.other hright hha⟩

/-- What mutators do keeps the heaps alike, and keeps what any handles lead to alike. -/
theorem Rehandled.perform {owned : List Handle} {g h : Heap} (hs : g.Rehandled owned h) {operation : Operation}
    (hsettled : operation.Settled owned) (hspace : (g.perform operation).2.WithinSpace) :
    (g.perform operation).2.Rehandled owned (h.perform operation).2 ∧
      ∀ k j, g.SameTarget h k j → (g.perform operation).2.SameTarget (h.perform operation).2 k j := by
  have hsame : (h.perform operation).2 = { (g.perform operation).2 with handles := (h.perform operation).2.handles } := by
    cases operation with
    | store holder name new => rw [(hs.store hsettled.1 name hsettled.2).1]
    | collect =>
      show h.collect.2 = { g.collect.2 with handles := h.collect.2.handles }
      rw [hs.collect]
    | define | allocate | newHandle | release => exact hsettled.elim
  have hright : (h.perform operation).2.WithinSpace := by
    rw [hsame]
    exact hspace
  have htargets : ∀ k j, g.SameTarget h k j → (g.perform operation).2.SameTarget (h.perform operation).2 k j := by
    intro k j hkj
    cases operation with
    | store holder name new =>
      obtain ⟨hstored, hhandles⟩ := hs.store hsettled.1 name hsettled.2
      refine hkj.of_resolve_eq ?_ ?_
      · simp only [resolve, hhandles]
      · simp only [resolve, hstored]
    | collect => exact hkj.collect hs hspace
    | define | allocate | newHandle | release => exact hsettled.elim
  exact ⟨⟨hsame, fun k hk => htargets k k (hs.owned k hk), hs.formed.change (perform_change g operation) hspace,
    hs.other.change (perform_change h operation) hright⟩, htargets⟩

theorem size_perform {owned : List Handle} (h : Heap) {operation : Operation} (hsettled : operation.Settled owned) :
    (h.perform operation).2.handles.slots.size = h.handles.slots.size := by
  cases operation with
  | store holder name new =>
    simp only [perform]
    cases hstore : h.store holder name new with
    | error e => rfl
    | ok h' =>
      obtain ⟨a, slot, v, rfl, -⟩ := store_eq_ok hstore
      rfl
  | collect => exact Array.size_map
  | define | allocate | newHandle | release => exact hsettled.elim

end Heap

end KnownObjects
