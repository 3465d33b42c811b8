import KnownObjects.Client
import KnownObjects.Proofs.Endings
import KnownObjects.Proofs.Heap.Operations
import KnownObjects.Proofs.Table.Slots

/-!
# What a lookup can do

`Site.Operation` is everything that can be asked of a table and the heap through which it is used. `Site.Looked` lists once how a lookup of an address can end, with the reason for each ending; the proofs about tables take lookups apart with it and never look at the code again. A lookup that only asks changes nothing.
-/

namespace KnownObjects

/-- What can be asked of a table in any role. -/
inductive Table.Operation where
  | endIndex
  | isNull (index : Index)
  | slot (index : Index)
  | indexAt (location : Location) (constant : Bool)
  | existingIndexAt (location : Location)
  | tag (index : Index)
  | isTagged (index : Index)
deriving DecidableEq

inductive Table.Answer where
  | index (index : Index)
  | flag (value : Bool)
  | slot (slot : Slot)
  | pointer (address : Address)
  | response (response : Response)
  | heap (answer : Heap.Answer)
  /-- A text, and whether the sink was full before its end. -/
  | printed (text : String) (failed : Bool)
  | done
deriving DecidableEq

/-- What an operation does that reads nothing but slots and tags: its answer, and the tags afterwards. A lookup is none of these. -/
def Table.Operation.plain? (slots : SlotStore) (tags : IndexSet) :
    Table.Operation → Option (Except Fatal Table.Answer × IndexSet)
  | .endIndex => some (.ok (.index slots.size), tags)
  | .isNull i => some (.ok (.flag i.isNull), tags)
  | .slot i => some ((slots.get i).map .slot, tags)
  | .tag i => some (.ok .done, tags.tag i)
  | .isTagged i => some (.ok (.flag (tags.contains i)), tags)
  | .indexAt _ _ => none
  | .existingIndexAt _ => none

theorem Table.Operation.plain?_error {operation : Table.Operation} {slots : SlotStore} {tags after : IndexSet}
    {f : Fatal} (h : operation.plain? slots tags = some (.error f, after)) :
    ∃ i, f = .indexOutOfRange i slots.size := by
  cases operation with
  | slot i =>
    refine ⟨i, ?_⟩
    unfold plain? SlotStore.get at h
    cases hget : slots.get? i with
    | some slot => simp [hget, Except.map] at h
    | none =>
      simp only [hget, Except.map, Option.some.injEq, Prod.mk.injEq, Except.error.injEq] at h
      exact h.1.symm
  | endIndex | isNull | tag | isTagged | indexAt | existingIndexAt => simp [plain?] at h

namespace Site

inductive Operation where
  | heap (operation : Heap.Operation)
  | table (operation : Table.Operation)
  | indexOf (object : Address) (constant : Bool)
  | existingIndexOf (object : Address)
  | pointerOf (index : Index)
  | serve (request : Request)
deriving DecidableEq

def onHeap (operation : Heap.Operation) : Run Heap.Answer := do
  let site ← get
  set { site with heap := (site.heap.perform operation).2 }
  return (site.heap.perform operation).1

def onTable : Table.Operation → Run Table.Answer
  | .endIndex => return .index (← get).table.endIndex
  | .isNull i => return .flag i.isNull
  | .slot i => .slot <$> slot i
  | .indexAt location constant => .index <$> indexAt location constant
  | .existingIndexAt location => .index <$> existingIndexAt location
  | .tag i => do
    tag i
    return .done
  | .isTagged i => return .flag ((← get).table.isTagged i)

def perform : Operation → Run Table.Answer
  | .heap operation => .heap <$> onHeap operation
  | .table operation => onTable operation
  | .indexOf object constant => .index <$> tagging constant (indexOf object)
  | .existingIndexOf object => .index <$> existingIndexOf object
  | .pointerOf i => .pointer <$> pointerOf i
  | .serve request => .response <$> serve request

def Operation.released : Operation → List Handle
  | .heap operation => operation.released
  | _ => []

def Operation.next (operation : Operation) (s : Site) : Site := ((perform operation).run s).state

/-- How a lookup of an address can end. -/
inductive Looked (a : Address) (s : Site) : Except Fatal Index → Site → Prop
  | null : a = .null → Looked a s (.ok .null) s
  | foreign : a ≠ .null → s.heap.id ≠ s.table.heapId → Looked a s (.error .foreignAccess) s
  | unreadable {e : HeapError} : a ≠ .null → s.table.find s.heap a = .error e → s.heap.id = s.table.heapId →
    Looked a s (.error (.heap e)) s
  | known {i : Index} : a ≠ .null → s.table.find s.heap a = .ok (some i) → s.heap.id = s.table.heapId →
    Looked a s (.ok i) s
  | stale : a ≠ .null → s.table.find s.heap a = .ok none → s.heap.isLive a = false → s.heap.id = s.table.heapId →
    Looked a s (.error (.heap (.staleAddress a))) s
  /-- The handle that was made is not given back. -/
  | full : a ≠ .null → s.table.find s.heap a = .ok none → s.heap.isLive a = true →
    s.table.slots.append? (s.heap.handles.insert a).1 = none → s.heap.id = s.table.heapId →
    Looked a s (.error .tableFull) { s with heap := s.heap.withHandle a }
  | learnt {i : Index} {slots : SlotStore} : a ≠ .null → s.table.find s.heap a = .ok none →
    s.heap.isLive a = true → s.table.slots.append? (s.heap.handles.insert a).1 = some (i, slots) →
    s.heap.id = s.table.heapId →
    Looked a s (.ok i) { heap := s.heap.withHandle a, table := { s.table with slots } }

theorem checkHeap_ends (s : Site) :
    checkHeap.Ends s (if s.heap.id = s.table.heapId then .ok () else .error .foreignAccess) s := by
  apply (Action.get_ends s).bind
  by_cases hid : s.heap.id = s.table.heapId
  · rw [if_pos hid, if_pos hid]
    exact Action.pure_ends () s
  · rw [if_neg hid, if_neg hid]
    exact Action.raise_ends _ s

theorem read_ends (location : Location) (s : Site) :
    (read location).Ends s ((s.heap.read location).mapError .heap) s :=
  (Action.get_ends s).bind (Action.orRaise_ends _ _ s)

theorem slot_ends (i : Index) (s : Site) :
    (slot i).Ends s ((s.table.slots.get i).mapError id) s :=
  (Action.get_ends s).bind (Action.orRaise_ends _ _ s)

theorem onTable_ends_of_plain {operation : Table.Operation} {s : Site} {r : Except Fatal Table.Answer}
    {tags : IndexSet} (h : operation.plain? s.table.slots s.table.constantElements = some (r, tags)) :
    (onTable operation).Ends s r { s with table := { s.table with constantElements := tags } } := by
  cases operation with
  | slot i =>
    have hends := (slot_ends i s).map Table.Answer.slot
    obtain ⟨rfl, rfl⟩ := Prod.mk.inj (Option.some.inj h)
    cases hget : s.table.slots.get i with
    | ok slot =>
      rw [hget] at hends
      exact hends
    | error f =>
      rw [hget] at hends
      exact hends
  | endIndex | isNull | tag | isTagged =>
    obtain ⟨rfl, rfl⟩ := Prod.mk.inj (Option.some.inj h)
    exact ⟨rfl, rfl⟩
  | indexAt | existingIndexAt => simp [Table.Operation.plain?] at h

theorem learn_looked {a : Address} {s : Site} (ha : a ≠ .null) (hfind : s.table.find s.heap a = .ok none)
    (hid : s.heap.id = s.table.heapId) : ∃ r t, (learn a).Ends s r t ∧ Looked a s r t := by
  cases hlive : s.heap.isLive a with
  | false =>
    have hnew : s.heap.newHandle a = .error (.staleAddress a) := by simp [Heap.newHandle, hlive]
    refine ⟨_, s, (Action.get_ends s).bind (Action.Ends.bind_error ?_), .stale ha hfind hlive hid⟩
    have hends := Action.orRaise_ends Fatal.heap (s.heap.newHandle a) s
    rw [hnew] at hends
    rwa [hnew]
  | true =>
    have hnew := Heap.newHandle_eq_ok_iff.2 ⟨hlive, rfl, rfl⟩
    have hmade := Action.orRaise_ends Fatal.heap (s.heap.newHandle a) s
    rw [hnew] at hmade
    cases happend : s.table.slots.append? (s.heap.handles.insert a).1 with
    | none =>
      refine ⟨_, _, ?_, .full ha hfind hlive happend hid⟩
      apply (Action.get_ends s).bind
      rw [hnew]
      refine hmade.bind ((Action.set_ends _ _).bind (Action.Ends.bind_error ?_))
      have hends := Action.orRaise_ends id (s.table.slots.append (s.heap.handles.insert a).1)
        { s with heap := s.heap.withHandle a }
      simp only [SlotStore.append, happend] at hends ⊢
      exact hends
    | some added =>
      refine ⟨_, _, ?_, .learnt ha hfind hlive happend hid⟩
      apply (Action.get_ends s).bind
      rw [hnew]
      refine hmade.bind ((Action.set_ends _ _).bind ?_)
      have hends := Action.orRaise_ends id (s.table.slots.append (s.heap.handles.insert a).1)
        { s with heap := s.heap.withHandle a }
      simp only [SlotStore.append, happend] at hends ⊢
      exact hends.bind ((Action.modify_ends _ _).bind ((Action.note_ends _ _ _).bind (Action.pure_ends _ _)))

theorem exists_looked (a : Address) (s : Site) : ∃ r t, (indexOf a).Ends s r t ∧ Looked a s r t := by
  simp only [indexOf]
  by_cases hnull : a = .null
  · rw [if_pos (Address.isNull_iff.2 hnull)]
    exact ⟨_, s, Action.pure_ends _ s, .null hnull⟩
  · rw [if_neg (mt Address.isNull_iff.1 hnull)]
    have hcheck := checkHeap_ends s
    by_cases hid : s.heap.id = s.table.heapId
    · rw [if_pos hid] at hcheck
      have hfound := Action.orRaise_ends Fatal.heap (s.table.find s.heap a) s
      cases hfind : s.table.find s.heap a with
      | error e =>
        rw [hfind] at hfound
        refine ⟨_, s, ?_, .unreadable hnull hfind hid⟩
        refine hcheck.bind ((Action.get_ends s).bind ?_)
        rw [hfind]
        exact hfound.bind_error
      | ok found =>
        rw [hfind] at hfound
        cases found with
        | some i =>
          refine ⟨_, s, ?_, .known hnull hfind hid⟩
          refine hcheck.bind ((Action.get_ends s).bind ?_)
          rw [hfind]
          exact hfound.bind ((Action.note_ends _ _ _).bind (Action.pure_ends _ _))
        | none =>
          obtain ⟨r, t, hlearn, hlooked⟩ := learn_looked hnull hfind hid
          refine ⟨r, t, ?_, hlooked⟩
          refine hcheck.bind ((Action.get_ends s).bind ?_)
          rw [hfind]
          exact hfound.bind hlearn
    · rw [if_neg hid] at hcheck
      exact ⟨_, s, hcheck.bind_error, .foreign hnull hid⟩

theorem looked_of_ends {a : Address} {s t : Site} {r : Except Fatal Index} (h : (indexOf a).Ends s r t) :
    Looked a s r t := by
  obtain ⟨q, u, hends, hlooked⟩ := exists_looked a s
  obtain ⟨rfl, rfl⟩ := h.unique hends
  exact hlooked

theorem Looked.unique {a : Address} {s t u : Site} {r q : Except Fatal Index} (h : Looked a s r t)
    (h' : Looked a s q u) : r = q ∧ t = u := by
  cases h <;> cases h' <;> simp_all

/-- A table with the same slots over the same heap looks up in the same way. -/
theorem Looked.of_same {a : Address} {s t u : Site} {r : Except Fatal Index} (h : Looked a s r t)
    (hheap : u.heap = s.heap) (hslots : u.table.slots = s.table.slots) (hid : u.table.heapId = s.table.heapId) :
    Looked a u r { heap := t.heap, table := { u.table with slots := t.table.slots } } := by
  obtain ⟨heap, heapId, slots, tags⟩ := u
  obtain ⟨heap', heapId', slots', tags'⟩ := s
  simp only at hheap hslots hid
  subst hheap hslots hid
  cases h with
  | null h => exact .null h
  | foreign h hforeign => exact .foreign h hforeign
  | unreadable h hfind hid => exact .unreadable h hfind hid
  | known h hfind hid => exact .known h hfind hid
  | stale h hfind hlive hid => exact .stale h hfind hlive hid
  | full h hfind hlive happend hid => exact .full h hfind hlive happend hid
  | learnt h hfind hlive happend hid => exact .learnt h hfind hlive happend hid

theorem Looked.table_eq {a : Address} {s t : Site} {r : Except Fatal Index} (h : Looked a s r t) :
    t.table = { s.table with slots := t.table.slots } := by
  cases h <;> rfl

theorem ends_of_looked {a : Address} {s t : Site} {r : Except Fatal Index} (h : Looked a s r t) :
    (indexOf a).Ends s r t := by
  obtain ⟨q, u, hends, hlooked⟩ := exists_looked a s
  obtain ⟨rfl, rfl⟩ := h.unique hlooked
  exact hends

end Site

end KnownObjects
