import KnownObjects.Proofs.Heap.Rehandling
import KnownObjects.Proofs.Table.Renaming

/-!
# Tables over heaps that differ in their handles

Two tables over such heaps are alike when their slots lead to the same objects in the same order, though by other handles. A lookup compares only what handles lead to, so it finds the same index in both or gives both a new slot. Whatever is asked of the two tables, without naming a handle that is not a mutator's, has the same answer up to the handles in slots.

A new slot needs a handle on either heap. That is the one place where the runs need room, and it comes at most once in a run; so `Carries` leads from sites with room to sites where it may be used up.
-/

namespace KnownObjects

namespace Action

variable {ε δ σ τ α β γ η : Type} {P Q T : σ → τ → Prop} {E : ε → δ → Prop} {R : α → β → Prop} {S : γ → η → Prop}

/-- Two runs that lead from related states to states related in another way, with results or errors that are related. -/
def Carries (P Q : σ → τ → Prop) (E : ε → δ → Prop) (R : α → β → Prop) (a : Action ε σ α) (b : Action δ τ β) : Prop :=
  ∀ s t, P s t → Except.Matched E R (a.run s).result (b.run t).result ∧ Q (a.run s).state (b.run t).state

namespace Carries

theorem bind {a : Action ε σ α} {b : Action δ τ β} {f : α → Action ε σ γ} {g : β → Action δ τ η}
    (h : Carries P Q E R a b) (hnext : ∀ x y, R x y → Carries Q T E S (f x) (g y)) (hweak : ∀ s t, Q s t → T s t) :
    Carries P T E S (a >>= f) (b >>= g) := by
  intro s t hs
  obtain ⟨hresult, hstate⟩ := h s t hs
  rcases hfirst : a.run s with ⟨x, s', log⟩
  rcases hsecond : b.run t with ⟨y, t', other⟩
  rw [hfirst, hsecond] at hresult hstate
  rw [run_bind, run_bind, hfirst, hsecond]
  cases hresult with
  | ok hxy => exact hnext _ _ hxy _ _ hstate
  | error he => exact ⟨.error he, hweak _ _ hstate⟩

theorem bind_eq {a : Action ε σ α} {b : Action δ τ α} {f : α → Action ε σ γ} {g : α → Action δ τ η}
    (h : Carries P Q E Eq a b) (hnext : ∀ x, Carries Q T E S (f x) (g x)) (hweak : ∀ s t, Q s t → T s t) :
    Carries P T E S (a >>= f) (b >>= g) :=
  h.bind (fun x _ hxy => hxy ▸ hnext x) hweak

theorem map {a : Action ε σ α} {b : Action δ τ β} {f : α → γ} {g : β → η} (h : Carries P Q E R a b)
    (hmap : ∀ x y, R x y → S (f x) (g y)) : Carries P Q E S (f <$> a) (g <$> b) := by
  rw [map_eq_pure_bind, map_eq_pure_bind]
  exact h.bind (fun x y hxy => Coupled.pure (hmap x y hxy)) fun _ _ hs => hs

theorem of_coupled {a : Action ε σ α} {b : Action δ τ β} (h : Coupled P E R a b) (hweak : ∀ s t, P s t → Q s t) :
    Carries P Q E R a b :=
  fun s t hs => ⟨(h s t hs).1, hweak _ _ (h s t hs).2⟩

end Carries

end Action

/-! ### Answers without the numbers of handles -/

def Slot.veil : Slot → Slot
  | null => null
  | ref _ => ref ⟨0⟩

def Response.veil : Response → Response
  | reply (.index i s) => reply (.index i s.veil)
  | r => r

def Table.Answer.veil : Table.Answer → Table.Answer
  | slot s => slot s.veil
  | response r => response r.veil
  | answer => answer

theorem SlotStore.handles_of_append? {s t : SlotStore} {k : Handle} {i : Index} (h : s.append? k = some (i, t)) :
    t.handles = s.handles ++ [k] := by
  unfold SlotStore.append? at h
  split at h
  · simp at h
  · rw [← (Prod.mk.inj (Option.some.inj h)).2]

/-! ### Alike tables -/

structure Table.Rehandled (g h : Heap) (t u : Table) : Prop where
  heapId : u.heapId = t.heapId
  tags : u.constantElements = t.constantElements
  slots : List.Forall₂ (g.SameTarget h) t.slots.handles u.slots.handles

namespace Table.Rehandled

variable {owned : List Handle} {g h : Heap} {t u : Table}

theorem size_eq (htu : t.Rehandled g h u) : u.slots.size = t.slots.size := by
  simp only [SlotStore.size, htu.slots.length_eq]

theorem find_eq (htu : t.Rehandled g h u) (a : Address) : u.find h a = t.find g a := by
  have hsearch : ∀ {ks js : List Handle}, List.Forall₂ (g.SameTarget h) ks js → ∀ first : Nat,
      search h a ((js.zipIdx first).map fun entry => (Index.ofNat entry.2, entry.1)) =
        search g a ((ks.zipIdx first).map fun entry => (Index.ofNat entry.2, entry.1)) := by
    intro ks js hkj
    induction hkj with
    | nil => exact fun first => rfl
    | cons htarget _ ih =>
      intro first
      rw [List.zipIdx_cons, List.zipIdx_cons, List.map_cons, List.map_cons, search_cons, search_cons,
        htarget.resolve_eq, ih]
  exact hsearch htu.slots 1

theorem append?_eq (htu : t.Rehandled g h u) (k j : Handle) :
    u.slots.append? j = (t.slots.append? k).map fun added => (added.1, ⟨u.slots.handles ++ [j]⟩) := by
  simp only [SlotStore.append?, htu.size_eq]
  split <;> rfl

theorem get?_cases (htu : t.Rehandled g h u) (i : Index) :
    (t.slots.get? i = none ∧ u.slots.get? i = none) ∨ (t.slots.get? i = some .null ∧ u.slots.get? i = some .null) ∨
      ∃ k j, t.slots.get? i = some (.ref k) ∧ u.slots.get? i = some (.ref j) ∧ g.SameTarget h k j := by
  simp only [SlotStore.get?, SlotStore.toList]
  split
  · exact Or.inl ⟨rfl, rfl⟩
  · cases i.toNat with
    | zero => exact Or.inr (Or.inl ⟨rfl, rfl⟩)
    | succ n =>
      rw [List.getElem?_cons_succ, List.getElem?_cons_succ, List.getElem?_map, List.getElem?_map]
      rcases Nat.lt_or_ge n t.slots.handles.length with hn | hn
      · have hm : n < u.slots.handles.length := htu.slots.length_eq ▸ hn
        rw [List.getElem?_eq_getElem hn, List.getElem?_eq_getElem hm]
        exact Or.inr (Or.inr ⟨_, _, rfl, rfl, htu.slots.get hn hm⟩)
      · rw [List.getElem?_eq_none hn, List.getElem?_eq_none (htu.slots.length_eq ▸ hn)]
        exact Or.inl ⟨rfl, rfl⟩

/-- What a slot of one table holds, seen without the numbers of handles, the slot of the other holds as well. -/
theorem get_veil (htu : t.Rehandled g h u) (i : Index) :
    Except.Matched Eq (fun x y => Slot.veil y = Slot.veil x) (t.slots.get i) (u.slots.get i) := by
  simp only [SlotStore.get]
  rcases htu.get?_cases i with ⟨ht, hu⟩ | ⟨ht, hu⟩ | ⟨k, j, ht, hu, -⟩
  · rw [ht, hu, htu.size_eq]
    exact .error rfl
  · rw [ht, hu]
    exact .ok rfl
  · rw [ht, hu]
    exact .ok rfl

/-- Changes of the heaps that leave what the handles in slots lead to. -/
theorem of_targets (htu : t.Rehandled g h u) {g' h' : Heap} (htargets : ∀ k ∈ t.slots.handles, ∀ j ∈ u.slots.handles,
    g.SameTarget h k j → g'.SameTarget h' k j) : t.Rehandled g' h' u where
  heapId := htu.heapId
  tags := htu.tags
  slots := by
    have hslots := List.forall₂_iff_zip.1 htu.slots
    refine List.forall₂_iff_zip.2 ⟨hslots.1, fun {k j} hkj => ?_⟩
    exact htargets k (List.of_mem_zip hkj).1 j (List.of_mem_zip hkj).2 (hslots.2 hkj)

end Table.Rehandled

namespace Site

/-- The location that is named in what is asked of a table. -/
def Operation.location? : Operation → Option Location
  | .table (.indexAt location _) => some location
  | .table (.existingIndexAt location) => some location
  | .serve (.getIndexAt location) => some location
  | .serve (.getExistingIndexAt location) => some location
  | _ => none

structure Rehandled (owned : List Handle) (s t : Site) : Prop where
  heap : s.heap.Rehandled owned t.heap
  table : s.table.Rehandled s.heap t.heap t.table

/-- Alike sites, with room for a handle on either heap. -/
structure Spacious (owned : List Handle) (s t : Site) : Prop extends Rehandled owned s t where
  left : s.heap.handles.slots.size < 4294967296
  right : t.heap.handles.slots.size < 4294967296

/-! ### Questions -/

section

variable {owned : List Handle} {P : Site → Site → Prop} (hP : ∀ s t, P s t → Rehandled owned s t)

/-- What an index stands for is read off its slot. -/
theorem pointerOf_ends (i : Index) (s : Site) : (pointerOf i).Ends s
    (match s.table.slots.get? i with
      | none => .error (.indexOutOfRange i s.table.slots.size)
      | some .null => .ok .null
      | some (.ref k) =>
        if s.heap.id = s.table.heapId then (s.heap.resolve k).mapError .heap else .error .foreignAccess) s := by
  have hslot := slot_ends i s
  simp only [SlotStore.get] at hslot
  cases hget : s.table.slots.get? i with
  | none =>
    rw [hget] at hslot
    exact hslot.bind_error
  | some slot =>
    rw [hget] at hslot
    refine hslot.bind ?_
    cases slot with
    | null => exact Action.pure_ends _ s
    | ref k =>
      have hcheck := checkHeap_ends s
      dsimp only
      by_cases hid : s.heap.id = s.table.heapId
      · rw [if_pos hid] at hcheck ⊢
        exact hcheck.bind ((Action.get_ends s).bind (Action.orRaise_ends _ _ s))
      · rw [if_neg hid] at hcheck ⊢
        exact hcheck.bind_error

namespace Rehandled

include hP

theorem checkHeap : Action.Coupled P Eq Eq Site.checkHeap Site.checkHeap := by
  refine Action.Coupled.get.bind fun s t hs => ?_
  rw [(hP s t hs).heap.id_eq, (hP s t hs).table.heapId]
  split
  · exact .pure rfl
  · exact fun _ _ hs => ⟨.error rfl, hs⟩

theorem slot (i : Index) : Action.Coupled P Eq (fun x y => Slot.veil y = Slot.veil x) (Site.slot i) (Site.slot i) := by
  refine Action.Coupled.get.bind fun s t hs => ?_
  exact Action.Coupled.orRaise ((hP s t hs).table.get_veil i) fun _ _ h => h

theorem read {location : Location} (hl : location.root ∈ owned) :
    Action.Coupled P Eq Eq (Site.read location) (Site.read location) := by
  refine Action.Coupled.get.bind fun s t hs => ?_
  rw [(hP s t hs).heap.read_eq hl]
  exact .orRaise_self _ _

theorem find {s t : Site} (hs : P s t) (a : Address) : Action.Coupled P Eq Eq
    (Action.orRaise Fatal.heap (s.table.find s.heap a)) (Action.orRaise Fatal.heap (t.table.find t.heap a)) := by
  rw [(hP s t hs).table.find_eq]
  exact .orRaise_self _ _

theorem existingIndexOf (a : Address) :
    Action.Coupled P Eq Eq (Site.existingIndexOf a) (Site.existingIndexOf a) := by
  simp only [Site.existingIndexOf]
  split
  · exact .pure rfl
  · refine (checkHeap hP).bind_eq fun _ => Action.Coupled.get.bind fun s t hs => ?_
    exact (find hP hs a).bind_eq fun found => .pure rfl

theorem existingIndexAt {location : Location} (hl : location.root ∈ owned) :
    Action.Coupled P Eq Eq (Site.existingIndexAt location) (Site.existingIndexAt location) :=
  (read hP hl).bind_eq (existingIndexOf hP)

/-- The handles in a slot differ, but the pointers do not. -/
theorem pointerOf (i : Index) : Action.Coupled P Eq Eq (Site.pointerOf i) (Site.pointerOf i) := by
  intro s t hs
  obtain ⟨hfirst, hleft⟩ := pointerOf_ends i s
  obtain ⟨hsecond, hright⟩ := pointerOf_ends i t
  have hrel := hP s t hs
  rw [hfirst, hsecond, hleft, hright]
  refine ⟨?_, hs⟩
  rcases hrel.table.get?_cases i with ⟨hgs, hgt⟩ | ⟨hgs, hgt⟩ | ⟨k, j, hgs, hgt, htarget⟩
  · rw [hgs, hgt, hrel.table.size_eq]
    exact .error rfl
  · rw [hgs, hgt]
    exact .ok rfl
  · rw [hgs, hgt, hrel.heap.id_eq, hrel.table.heapId]
    dsimp only
    rw [htarget.resolve_eq]
    exact .refl _

/-! ### Services that ask -/

theorem withObjectAt {Q : Site → Site → Prop} {location : Location} (hl : location.root ∈ owned)
    {answer : Address → Run Response} (hQ : ∀ s t, P s t → Q s t)
    (h : ∀ a, Action.Carries P Q Eq (fun x y => Response.veil y = x.veil) (answer a) (answer a)) :
    Action.Carries P Q Eq (fun x y => Response.veil y = x.veil) (Site.withObjectAt location answer)
      (Site.withObjectAt location answer) := by
  refine Action.Carries.bind (Action.Coupled.get (E := Eq)) (fun s t hs => ?_) hQ
  rw [(hP s t hs).heap.read_eq hl]
  cases s.heap.read location with
  | ok a => exact h a
  | error e => exact .of_coupled (.pure rfl) hQ

theorem serve_getExistingIndexAt {location : Location} (hl : location.root ∈ owned) :
    Action.Coupled P Eq (fun x y => Response.veil y = x.veil) (Site.serve (.getExistingIndexAt location))
      (Site.serve (.getExistingIndexAt location)) := by
  refine (Action.Coupled.note _ _ _).bind_eq fun _ => ?_
  exact withObjectAt hP hl (fun _ _ hs => hs) fun a => (existingIndexOf hP a).bind_eq fun i => .pure rfl

theorem serve_getPointer (i : Index) : Action.Coupled P Eq (fun x y => Response.veil y = x.veil)
    (Site.serve (.getPointer i)) (Site.serve (.getPointer i)) := by
  refine (Action.Coupled.note _ _ _).bind_eq fun _ => Action.Coupled.get.bind fun s t hs => ?_
  dsimp only [Table.endIndex]
  rw [(hP s t hs).table.size_eq]
  split
  · exact .pure rfl
  · exact (pointerOf hP i).bind_eq fun a => .pure rfl

end Rehandled

end

/-! ### Lookups -/

section

variable {owned : List Handle}

/-- A new handle on either heap, for the same object, and in the same new slot. -/
theorem Spacious.withHandle {s t : Site} (hs : Spacious owned s t) {a : Address} (ha : s.heap.isLive a = true) :
    Rehandled owned { s with heap := s.heap.withHandle a } { t with heap := t.heap.withHandle a } where
  heap := hs.heap.withHandle ha
  table := hs.table.of_targets fun _ _ _ _ hkj => hkj.withHandle hs.heap a

theorem Looked.rehandled {a : Address} {s t s' : Site} {r : Except Fatal Index} (h : Looked a s r s')
    (hs : Spacious owned s t) : ∃ t', Looked a t r t' ∧ Rehandled owned s' t' := by
  have hfind := hs.table.find_eq a
  have hlive := hs.heap.isLive_eq a
  have hid : t.heap.id = t.table.heapId ↔ s.heap.id = s.table.heapId := by
    rw [hs.heap.id_eq, hs.table.heapId]
  have happend := hs.table.append?_eq (s.heap.handles.insert a).1 (t.heap.handles.insert a).1
  cases h with
  | null hnull => exact ⟨t, .null hnull, hs.toRehandled⟩
  | foreign hnull hforeign => exact ⟨t, .foreign hnull (mt hid.1 hforeign), hs.toRehandled⟩
  | unreadable hnull herror hnative =>
    exact ⟨t, .unreadable hnull (hfind.trans herror) (hid.2 hnative), hs.toRehandled⟩
  | known hnull hfound hnative => exact ⟨t, .known hnull (hfind.trans hfound) (hid.2 hnative), hs.toRehandled⟩
  | stale hnull hnone hdead hnative =>
    exact ⟨t, .stale hnull (hfind.trans hnone) (hlive.trans hdead) (hid.2 hnative), hs.toRehandled⟩
  | full hnull hnone ha hfull hnative =>
    rw [hfull] at happend
    exact ⟨_, .full hnull (hfind.trans hnone) (hlive.trans ha) happend (hid.2 hnative), hs.withHandle ha⟩
  | learnt hnull hnone ha hadded hnative =>
    rw [hadded] at happend
    refine ⟨_, .learnt hnull (hfind.trans hnone) (hlive.trans ha) happend (hid.2 hnative), ?_⟩
    have hbound := hs.withHandle ha
    refine ⟨hbound.heap, hs.table.heapId, hs.table.tags, ?_⟩
    have hnew : (s.heap.withHandle a).SameTarget (t.heap.withHandle a) (s.heap.handles.insert a).1
        (t.heap.handles.insert a).1 :=
      ⟨a, Heap.resolve_withHandle_self hs.heap.formed ha hs.left,
        Heap.resolve_withHandle_self hs.heap.other (hlive.trans ha) hs.right⟩
    rw [SlotStore.handles_of_append? hadded]
    exact List.rel_append hbound.table.slots (.cons hnew .nil)

theorem Spacious.indexOf (a : Address) :
    Action.Carries (Spacious owned) (Rehandled owned) Eq Eq (Site.indexOf a) (Site.indexOf a) := by
  intro s t hs
  obtain ⟨r, s', ⟨hfirst, hleft⟩, hlooked⟩ := exists_looked a s
  obtain ⟨t', hother, hrel⟩ := hlooked.rehandled hs
  obtain ⟨hsecond, hright⟩ := ends_of_looked hother
  rw [hfirst, hsecond, hleft, hright]
  exact ⟨.refl r, hrel⟩

theorem Rehandled.tag (i : Index) : Action.Coupled (Rehandled owned) Eq Eq (Site.tag i) (Site.tag i) := by
  refine .modify fun s t hs => ⟨hs.heap, hs.table.heapId, ?_, hs.table.slots⟩
  simp only [Table.tag, hs.table.tags]

namespace Spacious

theorem tagging (constant : Bool) {lookup : Run Index}
    (h : Action.Carries (Spacious owned) (Rehandled owned) Eq Eq lookup lookup) :
    Action.Carries (Spacious owned) (Rehandled owned) Eq Eq (Site.tagging constant lookup)
      (Site.tagging constant lookup) := by
  refine h.bind_eq (fun i => ?_) fun _ _ hs => hs
  cases constant with
  | false => exact Action.Coupled.pure rfl
  | true => exact (Rehandled.tag i).bind_eq fun _ => .pure rfl

theorem indexAt {location : Location} (hl : location.root ∈ owned) (constant : Bool) :
    Action.Carries (Spacious owned) (Rehandled owned) Eq Eq (Site.indexAt location constant)
      (Site.indexAt location constant) := by
  refine tagging constant (Action.Carries.bind_eq (Q := Spacious owned) ?_ indexOf fun _ _ hs => hs.toRehandled)
  exact Rehandled.read (fun _ _ hs => hs.toRehandled) hl

theorem indexReply (a : Address) : Action.Carries (Spacious owned) (Rehandled owned) Eq
    (fun x y => Response.veil y = x.veil) (Site.indexReply a) (Site.indexReply a) := by
  refine (indexOf a).bind_eq (fun i => ?_) fun _ _ hs => hs
  refine (Rehandled.slot (P := Rehandled owned) (fun _ _ hs => hs) i).bind fun x y hxy => .pure ?_
  simp only [Response.veil, hxy]

theorem serve {request : Request} (hrequest : ∀ l, (Operation.serve request).location? = some l → l.root ∈ owned) :
    Action.Carries (Spacious owned) (Rehandled owned) Eq (fun x y => Response.veil y = x.veil) (Site.serve request)
      (Site.serve request) := by
  have hweak : ∀ s t, Spacious owned s t → Rehandled owned s t := fun _ _ hs => hs.toRehandled
  cases request with
  | getIndex a =>
    refine Action.Carries.bind_eq (Action.Coupled.note _ _ _) (fun _ => ?_) hweak
    refine Action.Carries.bind (Action.Coupled.get (P := Spacious owned)) (fun s t hs => ?_) hweak
    rw [hs.heap.isLive_eq]
    split
    · exact indexReply a
    · exact .of_coupled (.pure rfl) hweak
  | getIndexAt location =>
    refine Action.Carries.bind_eq (Action.Coupled.note _ _ _) (fun _ => ?_) hweak
    exact Rehandled.withObjectAt hweak (hrequest location rfl) hweak indexReply
  | getExistingIndexAt location =>
    exact .of_coupled (Rehandled.serve_getExistingIndexAt hweak (hrequest location rfl)) hweak
  | getPointer i => exact .of_coupled (Rehandled.serve_getPointer hweak i) hweak

theorem onTable {operation : Table.Operation}
    (hoperation : ∀ l, (Operation.table operation).location? = some l → l.root ∈ owned) :
    Action.Carries (Spacious owned) (Rehandled owned) Eq (fun x y => Table.Answer.veil y = x.veil)
      (Site.onTable operation) (Site.onTable operation) := by
  have hweak : ∀ s t, Spacious owned s t → Rehandled owned s t := fun _ _ hs => hs.toRehandled
  cases operation with
  | endIndex =>
    refine Action.Carries.bind (Action.Coupled.get (P := Spacious owned)) (fun s t hs => ?_) hweak
    rw [Table.endIndex, Table.endIndex, hs.table.size_eq]
    exact .of_coupled (.pure rfl) hweak
  | isNull i => exact .of_coupled (.pure rfl) hweak
  | slot i =>
    exact .of_coupled ((Rehandled.slot hweak i).map fun x y hxy => by simp only [Table.Answer.veil, hxy]) hweak
  | indexAt location constant =>
    exact (indexAt (hoperation location rfl) constant).map fun i _ h => h ▸ rfl
  | existingIndexAt location =>
    exact .of_coupled ((Rehandled.existingIndexAt hweak (hoperation location rfl)).map fun i _ h => h ▸ rfl) hweak
  | tag i =>
    have hleads : Action.Carries (Spacious owned) (Rehandled owned) Eq Eq (Site.tag i) (Site.tag i) :=
      fun s t hs => Rehandled.tag i s t hs.toRehandled
    exact hleads.bind_eq (fun _ => Action.Coupled.pure rfl) fun _ _ hs => hs
  | isTagged i =>
    refine Action.Carries.bind (Action.Coupled.get (P := Spacious owned)) (fun s t hs => ?_) hweak
    rw [Table.isTagged, Table.isTagged, hs.table.tags]
    exact .of_coupled (.pure rfl) hweak

/-- Whatever is asked of two tables, through mutators' handles or without any, they answer alike and stay alike. -/
theorem perform {operation : Operation} (huse : ∀ heapOperation, operation ≠ .heap heapOperation)
    (hoperation : ∀ l, operation.location? = some l → l.root ∈ owned) :
    Action.Carries (Spacious owned) (Rehandled owned) Eq (fun x y => Table.Answer.veil y = x.veil)
      (Site.perform operation) (Site.perform operation) := by
  have hweak : ∀ s t, Spacious owned s t → Rehandled owned s t := fun _ _ hs => hs.toRehandled
  cases operation with
  | heap heapOperation => exact absurd rfl (huse heapOperation)
  | table operation => exact onTable hoperation
  | indexOf object constant => exact (tagging constant (indexOf object)).map fun i _ h => h ▸ rfl
  | existingIndexOf object =>
    exact .of_coupled ((Rehandled.existingIndexOf hweak object).map fun i _ h => h ▸ rfl) hweak
  | pointerOf i => exact .of_coupled ((Rehandled.pointerOf hweak i).map fun a _ h => h ▸ rfl) hweak
  | serve request => exact (serve hoperation).map fun x y hxy => by simp only [Table.Answer.veil, hxy]

end Spacious

end

end Site

end KnownObjects
