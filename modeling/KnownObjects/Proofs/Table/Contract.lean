import KnownObjects.Proofs.Heap.Holdings
import KnownObjects.Proofs.Table.Uses

/-!
# The contract of a client

A client answers every request that it gets, however little sense the request makes, and never gives up on one. That rests on what others leave alone: as long as nobody gives back a handle of its table, all of them lead to objects, so that no search among them fails. `Site.Spared` are the states that come about in this way.

`Site.Contract` says for each kind of request what is answered in which case, and what becomes of the state. The kinds agree with one another. An index that was given out leads back to the object that was asked for, and what a client answers when it is only asked for an index is what it would answer if it were to give one.
-/

namespace KnownObjects.Site

/-- A client and its heap after operations of any kind, none of which gives back a handle of the table. -/
inductive Spared : Site → Prop
  | start {heap : Heap} : heap.Reached → Spared ⟨heap, .empty heap.id⟩
  | performed {s : Site} (operation : Operation) : Spared s →
    (∀ h ∈ s.table.slots.handles, h ∉ operation.released) → (operation.next s).heap.WithinSpace →
    Spared (operation.next s)

theorem Spared.exists_knows {s : Site} (hs : s.Spared) : ∃ known, s.Knows known := by
  induction hs with
  | start hheap => exact ⟨[], hheap.wellFormed, rfl, SlotStore.empty_fits, rfl⟩
  | @performed s operation _ hspared hspace ih =>
    obtain ⟨known, hknows⟩ := ih
    by_cases huse : ∀ heapOperation, operation ≠ .heap heapOperation
    · exact hknows.used (used_perform huse s)
    · obtain ⟨heapOperation, rfl⟩ := not_forall_not.1 huse
      exact ⟨known, hknows.change (Heap.perform_change s.heap heapOperation) hspace hspared⟩

/-! ### What an index stands for -/

/-- Index 0 stands for null, and any other index for the object to which the handle in its slot leads. -/
def StandsFor (s : Site) (i : Index) (a : Address) : Prop :=
  i = .null ∧ a = .null ∨ ∃ h, s.table.slots.get? i = some (.ref h) ∧ s.heap.resolve h = .ok a ∧ s.heap.isLive a = true

/-- The object at the address was given the next index, with a new slot for a new handle. -/
structure Gains (s : Site) (a : Address) (i : Index) (h : Handle) (t : Site) : Prop where
  index : i = s.table.endIndex
  table : t.table = { s.table with slots := ⟨s.table.slots.handles ++ [h]⟩ }
  heap : t.heap = { s.heap with handles := t.heap.handles }
  fresh : s.heap.resolve h = .error (.invalidHandle h)
  bound : t.heap.resolve h = .ok a
  others : ∀ k, k ≠ h → t.heap.resolve k = s.heap.resolve k
  live : t.heap.handles.live = s.heap.handles.live + 1

/-- The index and the slot that were answered belong to the object at the address. -/
structure Indexes (s : Site) (a : Address) (i : Index) (slot : Slot) (t : Site) : Prop where
  slot : (Site.slot i).Ends t (.ok slot) t
  pointerOf : (Site.pointerOf i).Ends t (.ok a) t
  pointer : (serve (.getPointer i)).Ends t (.ok (.reply (.pointer a))) t
  /-- Nothing changes if the object is known, or null. -/
  state : s.StandsFor i a ∧ t = s ∨ (∀ j, ¬s.StandsFor j a) ∧ ∃ h, s.Gains a i h t

/-- What a lookup of the location would answer, if it would leave the table as it is. -/
def Foretells (s : Site) (location : Location) (i : Index) : Prop :=
  (∃ slot, i ≠ .unknown ∧ (serve (.getIndexAt location)).Ends s (.ok (.reply (.index i slot))) s) ∨
    i = .unknown ∧ ∀ response t, (serve (.getIndexAt location)).Ends s (.ok response) t →
      ∃ h, t.table.slots.handles = s.table.slots.handles ++ [h]

/-- What is answered to a request, and which state is left. -/
def Contract (s : Site) : Request → Response → Site → Prop
  | .getIndexAt location, response, t =>
    match s.heap.read location with
    | .ok a => ∃ i slot, response = .reply (.index i slot) ∧ s.Indexes a i slot t
    | .error e => response = .refusal e.message ∧ t = s
  | .getIndex a, response, t =>
    if a ≠ .null ∧ s.heap.isLive a = false then
      response = .refusal (HeapError.staleAddress a).message ∧ t = s
    else ∃ i slot, response = .reply (.index i slot) ∧ s.Indexes a i slot t
  | .getExistingIndexAt location, response, t =>
    t = s ∧ match s.heap.read location with
      | .ok _ => ∃ i, response = .reply (.existingIndex i) ∧ s.Foretells location i
      | .error e => response = .refusal e.message
  | .getPointer i, response, t =>
    t = s ∧ if i = .unknown ∨ s.table.endIndex ≤ i then
        response = .refusal (Fatal.indexOutOfRange i s.table.endIndex).message
      else ∃ a, response = .reply (.pointer a) ∧ s.StandsFor i a

/-- If the request is for the index of an object that has none, there are numbers left for a slot and for a handle. -/
def Affords (s : Site) (request : Request) : Prop :=
  ∀ a, (Operation.serve request).sought? s.heap = some a → s.heap.isLive a = true → (∀ j, ¬s.StandsFor j a) →
    s.table.slots.handles.length + 2 < 4294967295 ∧ s.heap.handles.slots.size < 4294967296

variable {s t : Site} {known : List Nat} {a : Address} {i : Index}

theorem affords_of_lt (request : Request) (hslots : s.table.slots.handles.length + 2 < 4294967295)
    (hhandles : s.heap.handles.slots.size < 4294967296) : s.Affords request := fun _ _ _ _ => ⟨hslots, hhandles⟩

namespace Knows

theorem exists_of_mem (hs : s.Knows known) {h : Handle} (hh : h ∈ s.table.slots.handles) :
    ∃ b, s.heap.resolve h = .ok b := by
  have hmem : s.heap.numberOf? h ∈ known.map some := hs.numbers ▸ List.mem_map_of_mem hh
  obtain ⟨n, -, hn⟩ := List.mem_map.1 hmem
  obtain ⟨b, hget, -⟩ := Option.bind_eq_some_iff.1 hn.symm
  exact ⟨b, Heap.resolve_eq_ok_iff.2 hget⟩

theorem standsFor_of_find (hs : s.Knows known) (hfind : s.table.find s.heap a = .ok (some i)) : s.StandsFor i a := by
  obtain ⟨h, hmem, hresolve⟩ := search_mem hfind
  exact Or.inr ⟨h, hs.fits.mem_refs_iff.1 hmem, hresolve, hs.heap.isLive_of_resolve hresolve⟩

theorem not_standsFor_of_find (ha : a ≠ .null) (hfind : s.table.find s.heap a = .ok none) (j : Index) :
    ¬s.StandsFor j a := by
  rintro (⟨-, hnull⟩ | ⟨h, hget, hresolve, -⟩)
  · exact ha hnull
  · exact resolve_ne_of_search hfind (SlotStore.mem_refs_of_get? hget) hresolve

end Knows

theorem StandsFor.pointerOf_ends (hi : s.StandsFor i a) (hnative : s.heap.id = s.table.heapId) :
    (pointerOf i).Ends s (.ok a) s := by
  have hslot := slot_ends i s
  rcases hi with ⟨rfl, rfl⟩ | ⟨h, hget, hresolve, -⟩
  · exact hslot.bind (Action.pure_ends _ s)
  · have hcheck := checkHeap_ends s
    rw [if_pos hnative] at hcheck
    simp only [SlotStore.get, hget] at hslot
    refine hslot.bind (hcheck.bind ((Action.get_ends s).bind ?_))
    rw [hresolve]
    exact Action.pure_ends a s

theorem StandsFor.exists_slot (hi : s.StandsFor i a) : ∃ slot, s.table.slots.get? i = some slot := by
  rcases hi with ⟨rfl, -⟩ | ⟨h, hget, -⟩
  · exact ⟨.null, SlotStore.get?_null _⟩
  · exact ⟨.ref h, hget⟩

/-- An index with a slot is in range. -/
theorem inRange_of_get? (hfits : s.table.slots.Fits) {slot : Slot} (hget : s.table.slots.get? i = some slot) :
    ¬(i = .unknown ∨ s.table.endIndex ≤ i) := by
  have hlt := hfits.lt_of_get? hget
  have hend := hfits.toNat_size
  unfold SlotStore.Fits at hfits
  rintro (rfl | hle)
  · rw [Index.toNat_unknown] at hlt
    omega
  · exact Nat.not_le_of_lt hlt hle

/-- An index that stands for an object afterwards may be answered with its slot. -/
theorem StandsFor.indexes {slot : Slot} (hi : t.StandsFor i a) (hnative : t.heap.id = t.table.heapId)
    (hfits : t.table.slots.Fits) (hget : t.table.slots.get? i = some slot)
    (hstate : s.StandsFor i a ∧ t = s ∨ (∀ j, ¬s.StandsFor j a) ∧ ∃ h, s.Gains a i h t) : s.Indexes a i slot t where
  slot := by
    have hslot := slot_ends i t
    simp only [SlotStore.get, hget] at hslot
    exact hslot
  pointerOf := hi.pointerOf_ends hnative
  pointer := serve_getPointer_ends (inRange_of_get? hfits hget) (hi.pointerOf_ends hnative)
  state := hstate

namespace Knows

/-- A slot for an object that is not yet known. -/
theorem gains (hs : s.Knows known) (hlive : s.heap.isLive a = true) (hroom : s.heap.handles.slots.size < 4294967296)
    {slots : SlotStore} (happend : s.table.slots.append? (s.heap.handles.insert a).1 = some (i, slots)) :
    s.Gains a i (s.heap.handles.insert a).1 ⟨s.heap.withHandle a, { s.table with slots }⟩ := by
  obtain ⟨-, hi, rfl⟩ := hs.fits.append?_eq_some_iff.1 happend
  have hvalid := hs.heap.handles_valid
  have hne := hs.heap.ne_null_of_isLive hlive
  refine ⟨hi, rfl, rfl, ?_, ?_, fun k hk => ?_, hvalid.live_insert a⟩
  · simp only [Heap.resolve]
    rw [hvalid.get?_of_insert a hroom]
  · exact Heap.resolve_eq_ok_iff.2 (hvalid.get?_insert_self hne hroom)
  · simp only [Heap.resolve, Heap.withHandle]
    rw [HandleTable.Valid.get?_insert_of_ne hk]

/-- A lookup of null or of a live object is answered with its index, unless the object is new and there is no slot left for it. -/
theorem indexReply_cases (hs : s.Knows known) (ha : a = .null ∨ s.heap.isLive a = true) :
    (∃ i slot t, (indexReply a).Ends s (.ok (.reply (.index i slot))) t ∧
      ((s.heap.isLive a = true → (∀ j, ¬s.StandsFor j a) → s.heap.handles.slots.size < 4294967296) →
        s.Indexes a i slot t)) ∨
    s.heap.isLive a = true ∧ (∀ j, ¬s.StandsFor j a) ∧ 4294967295 ≤ s.table.slots.handles.length + 2 ∧
      ∃ t, (indexReply a).Ends s (.error .tableFull) t := by
  obtain ⟨r, t, hends, hlooked⟩ := exists_looked a s
  cases hlooked with
  | null hnull =>
    have hi : s.StandsFor .null a := Or.inl ⟨rfl, hnull⟩
    have hget := SlotStore.get?_null s.table.slots
    exact Or.inl ⟨_, _, s, indexReply_ends hends hget, fun _ => hi.indexes hs.native hs.fits hget (Or.inl ⟨hi, rfl⟩)⟩
  | foreign _ hforeign => exact absurd hs.native hforeign
  | unreadable _ herror =>
    rw [hs.find_eq a] at herror
    simp at herror
  | known _ hfind =>
    have hi := hs.standsFor_of_find hfind
    obtain ⟨slot, hget⟩ := hi.exists_slot
    exact Or.inl ⟨_, _, s, indexReply_ends hends hget, fun _ => hi.indexes hs.native hs.fits hget (Or.inl ⟨hi, rfl⟩)⟩
  | stale hne _ hstale =>
    rw [ha.resolve_left hne] at hstale
    simp at hstale
  | full hne hfind hlive hfull =>
    refine Or.inr ⟨hlive, not_standsFor_of_find hne hfind, ?_, _, hends.bind_error⟩
    by_contra hroom
    rw [hs.fits.append?, if_pos (Nat.lt_of_not_le hroom)] at hfull
    simp at hfull
  | learnt hne hfind hlive happend =>
    have hnew := not_standsFor_of_find hne hfind
    have hgains := fun hroom => hs.gains hlive hroom happend
    have hfits := hs.fits.of_append? happend
    obtain ⟨-, rfl, rfl⟩ := hs.fits.append?_eq_some_iff.1 happend
    have hget := hfits.get?_ofNat_succ (h := (s.heap.handles.insert a).1) (k := s.table.slots.handles.length) (by simp)
    refine Or.inl ⟨_, _, _, indexReply_ends hends hget, fun hroom => ?_⟩
    have hgained := hgains (hroom hlive hnew)
    exact StandsFor.indexes (Or.inr ⟨_, hget, hgained.bound, hlive⟩) hs.native hfits hget (Or.inr ⟨hnew, _, hgained⟩)

theorem exists_indexes (hs : s.Knows known) (ha : a = .null ∨ s.heap.isLive a = true)
    (hroom : s.heap.isLive a = true → (∀ j, ¬s.StandsFor j a) →
      s.table.slots.handles.length + 2 < 4294967295 ∧ s.heap.handles.slots.size < 4294967296) :
    ∃ i slot t, (indexReply a).Ends s (.ok (.reply (.index i slot))) t ∧ s.Indexes a i slot t := by
  rcases hs.indexReply_cases ha with ⟨i, slot, t, hends, hindexes⟩ | ⟨hlive, hnew, hfull, -⟩
  · exact ⟨i, slot, t, hends, hindexes fun hlive hnew => (hroom hlive hnew).2⟩
  · exact absurd (hroom hlive hnew).1 (Nat.not_lt_of_le hfull)

/-- What is asked about without giving it an index is answered as a lookup would answer it. -/
theorem exists_foretells (hs : s.Knows known) {location : Location} (hread : s.heap.read location = .ok a) :
    ∃ i, (Site.existingIndexOf a).Ends s (.ok i) s ∧ s.Foretells location i := by
  have hasked := existingIndexOf_ends a s
  rw [if_pos hs.native] at hasked
  by_cases hnull : a = .null
  · rw [if_pos hnull] at hasked
    have hreply := indexReply_ends (ends_of_looked (.null hnull)) (SlotStore.get?_null s.table.slots)
    exact ⟨.null, hasked, Or.inl ⟨.null, by decide, serve_getIndexAt_ends hread hreply⟩⟩
  · rw [if_neg hnull] at hasked
    cases hfind : s.table.find s.heap a with
    | error e =>
      rw [hs.find_eq a] at hfind
      simp at hfind
    | ok found =>
      rw [hfind] at hasked
      cases found with
      | some i =>
        obtain ⟨slot, hget⟩ := (hs.standsFor_of_find hfind).exists_slot
        have hreply := indexReply_ends (ends_of_looked (.known hnull hfind hs.native)) hget
        have hrange := inRange_of_get? hs.fits hget
        exact ⟨i, hasked, Or.inl ⟨slot, fun hi => hrange (Or.inl hi), serve_getIndexAt_ends hread hreply⟩⟩
      | none =>
        refine ⟨.unknown, hasked, Or.inr ⟨rfl, fun response t hends => ?_⟩⟩
        obtain ⟨r, u, hfirst, hlooked⟩ := exists_looked a s
        obtain ⟨q, hreply, herror⟩ := exists_indexReply_ends hfirst
        obtain ⟨rfl, rfl⟩ := hends.unique (serve_getIndexAt_ends hread hreply)
        cases hlooked with
        | null h => exact absurd h hnull
        | foreign _ hforeign => exact absurd hs.native hforeign
        | unreadable _ hother => exact nomatch hfind.symm.trans hother
        | known _ hother => exact nomatch hfind.symm.trans hother
        | stale | full => exact nomatch herror _ rfl
        | learnt _ _ _ happend =>
          obtain ⟨-, -, rfl⟩ := hs.fits.append?_eq_some_iff.1 happend
          exact ⟨_, rfl⟩

theorem exists_standsFor (hs : s.Knows known) (hrange : ¬(i = .unknown ∨ s.table.endIndex ≤ i)) :
    ∃ a, s.StandsFor i a := by
  obtain ⟨-, hbelow⟩ := not_or.1 hrange
  have hlt : i.toNat < s.table.slots.size.toNat := Nat.lt_of_not_le hbelow
  rw [hs.fits.toNat_size] at hlt
  cases hi : i.toNat with
  | zero => exact ⟨.null, Or.inl ⟨Index.ext_toNat hi, rfl⟩⟩
  | succ k =>
    have hk : k < s.table.slots.handles.length := by omega
    obtain ⟨b, hresolve⟩ := hs.exists_of_mem (List.getElem_mem hk)
    have hget := hs.fits.get?_eq_ref_iff.2 ⟨k, hi, List.getElem?_eq_getElem hk⟩
    exact ⟨b, Or.inr ⟨_, hget, hresolve, hs.heap.isLive_of_resolve hresolve⟩⟩

/-- Every request is answered, unless it is for the index of a new object and there is no slot left for it. -/
theorem exists_answer_or_full (hs : s.Knows known) (request : Request) : ∃ r t, (serve request).Ends s r t ∧
    ∀ f, r = .error f → f = .tableFull ∧ 4294967295 ≤ s.table.slots.handles.length + 2 := by
  have hentered : ∀ {a : Address}, a = .null ∨ s.heap.isLive a = true → ∃ r t, (indexReply a).Ends s r t ∧
      ∀ f, r = .error f → f = .tableFull ∧ 4294967295 ≤ s.table.slots.handles.length + 2 := by
    intro a ha
    rcases hs.indexReply_cases ha with ⟨i, slot, t, hends, -⟩ | ⟨-, -, hfull, t, hends⟩
    · exact ⟨_, t, hends, by simp⟩
    · exact ⟨_, t, hends, fun f hf => ⟨(Except.error.inj hf).symm, hfull⟩⟩
  cases request with
  | getIndex a =>
    by_cases hlive : a = .null ∨ s.heap.isLive a = true
    · obtain ⟨r, t, hends, herror⟩ := hentered hlive
      exact ⟨r, t, serve_getIndex_ends hlive hends, herror⟩
    · exact ⟨_, s, serve_getIndex_ends_refusal hlive, by simp⟩
  | getIndexAt location =>
    cases hread : s.heap.read location with
    | error e => exact ⟨_, s, (serve_ends_of_unread hread).1, by simp⟩
    | ok a =>
      obtain ⟨r, t, hends, herror⟩ := hentered (hs.heap.isLive_of_read hread)
      exact ⟨r, t, serve_getIndexAt_ends hread hends, herror⟩
  | getExistingIndexAt location =>
    cases hread : s.heap.read location with
    | error e => exact ⟨_, s, (serve_ends_of_unread hread).2, by simp⟩
    | ok a =>
      obtain ⟨i, hends, -⟩ := hs.exists_foretells hread
      exact ⟨_, s, serve_getExistingIndexAt_ends hread hends, by simp [Except.map]⟩
  | getPointer i =>
    by_cases hrange : i = .unknown ∨ s.table.endIndex ≤ i
    · exact ⟨_, s, serve_getPointer_ends_refusal hrange, by simp⟩
    · obtain ⟨a, hi⟩ := hs.exists_standsFor hrange
      exact ⟨_, s, serve_getPointer_ends hrange (hi.pointerOf_ends hs.native), by simp [Except.map]⟩

/-- Serving a request leaves a table whose handles lead to objects, with at most one slot more. -/
theorem served (hs : s.Knows known) {request : Request} {r : Except Fatal Response} (h : (serve request).Ends s r t) :
    (∃ known, t.Knows known) ∧ t.table.slots.handles.length ≤ s.table.slots.handles.length + 1 := by
  have hused : Used s ((perform (.serve request)).run s).result ((Operation.serve request).next s) :=
    used_perform (fun _ => by simp) s
  have hnext : (Operation.serve request).next s = t := (h.map Table.Answer.response).2
  rw [hnext] at hused
  exact ⟨hs.used hused, hused.length_le hs.fits⟩

end Knows

/-- As long as nobody gives back its handles, a client answers every request, and answers it by the contract. -/
theorem exists_contract (hs : s.Spared) (request : Request) (hroom : s.Affords request) :
    ∃ response t, (serve request).Ends s (.ok response) t ∧ s.Contract request response t := by
  obtain ⟨known, hknows⟩ := hs.exists_knows
  cases request with
  | getIndex a =>
    by_cases hstale : a ≠ .null ∧ s.heap.isLive a = false
    · refine ⟨_, s, serve_getIndex_ends_refusal (by simp [hstale]), ?_⟩
      rw [Contract, if_pos hstale]
      exact ⟨rfl, rfl⟩
    · have hlive : a = .null ∨ s.heap.isLive a = true := by
        rwa [not_and_or, not_not, Bool.not_eq_false] at hstale
      obtain ⟨i, slot, t, hends, hindexes⟩ := hknows.exists_indexes hlive (hroom a rfl)
      refine ⟨_, t, serve_getIndex_ends hlive hends, ?_⟩
      rw [Contract, if_neg hstale]
      exact ⟨i, slot, rfl, hindexes⟩
  | getIndexAt location =>
    simp only [Contract]
    cases hread : s.heap.read location with
    | error e => exact ⟨_, s, (serve_ends_of_unread hread).1, rfl, rfl⟩
    | ok a =>
      have hsought : (Operation.serve (.getIndexAt location)).sought? s.heap = some a := by
        simp [Operation.sought?, hread, Except.toOption]
      obtain ⟨i, slot, t, hends, hindexes⟩ := hknows.exists_indexes (hknows.heap.isLive_of_read hread) (hroom a hsought)
      exact ⟨_, t, serve_getIndexAt_ends hread hends, i, slot, rfl, hindexes⟩
  | getExistingIndexAt location =>
    simp only [Contract]
    cases hread : s.heap.read location with
    | error e => exact ⟨_, s, (serve_ends_of_unread hread).2, rfl, rfl⟩
    | ok a =>
      obtain ⟨i, hends, hforetells⟩ := hknows.exists_foretells hread
      exact ⟨_, s, serve_getExistingIndexAt_ends hread hends, rfl, i, rfl, hforetells⟩
  | getPointer i =>
    by_cases hrange : i = .unknown ∨ s.table.endIndex ≤ i
    · refine ⟨_, s, serve_getPointer_ends_refusal hrange, ?_⟩
      rw [Contract, if_pos hrange]
      exact ⟨rfl, rfl⟩
    · obtain ⟨a, hi⟩ := hknows.exists_standsFor hrange
      refine ⟨_, s, serve_getPointer_ends hrange (hi.pointerOf_ends hknows.native), ?_⟩
      rw [Contract, if_neg hrange]
      exact ⟨rfl, a, rfl, hi⟩

/-- After a collection a client is asked for an object that it does not know yet, next to one that it knows. -/
theorem exists_contract_of_unknown : ∃ (s : Site) (a : Address), s.Spared ∧ s.table.slots.handles.length = 1 ∧
    s.heap.read (.handle ⟨1⟩) = .ok a ∧ s.table.find s.heap a = .ok none ∧ s.Affords (.getIndexAt (.handle ⟨1⟩)) ∧
    ∃ response t, (serve (.getIndexAt (.handle ⟨1⟩))).Ends s (.ok response) t ∧
      s.Contract (.getIndexAt (.handle ⟨1⟩)) response t := by
  have hstart := Spared.start (@Heap.Reached.created 0 .default _ rfl)
  have hnode := hstart.performed (.heap (.define ⟨"p/Node", [], false⟩)) (by decide) (by decide +kernel)
  have hfirst := hnode.performed (.heap (.allocate 0)) (by decide) (by decide +kernel)
  have hsecond := hfirst.performed (.heap (.allocate 0)) (by decide) (by decide +kernel)
  have hone := hsecond.performed (.serve (.getIndexAt (.handle ⟨0⟩))) (by decide +kernel) (by decide +kernel)
  have hreleased := hone.performed (.heap (.release [⟨0⟩])) (by decide +kernel) (by decide +kernel)
  have hmoved := hreleased.performed (.heap .collect) (by decide +kernel) (by decide +kernel)
  exact ⟨_, ⟨0x1030⟩, hmoved, by decide +kernel, by decide +kernel, by decide +kernel,
    affords_of_lt _ (by decide +kernel) (by decide +kernel),
    exists_contract hmoved _ (affords_of_lt _ (by decide +kernel) (by decide +kernel))⟩

end KnownObjects.Site
