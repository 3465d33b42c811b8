import KnownObjects.Proofs.Table.Known

/-!
# A table is a list of objects in order of first appearance

`Site.Tracks` runs a table from its start through operations of any kind, with a list of objects beside it that is extended whenever a lookup meets a live object that is not on it. The main statement is that the list says everything about indices: the index of an object is its place in the list, counted from 1, null has index 0, and no other operation has a part in it, neither a collection nor an operation that fails.

The run leaves out what a caller must not do, which is to give back handles that the table holds, and what the numbers cannot express: addresses, handles and slots must fit their words.
-/

namespace KnownObjects.Site

/-- The object to which an operation gives an index if it has none. -/
def Operation.sought? (heap : Heap) : Operation → Option Address
  | .indexOf object _ => some object
  | .table (.indexAt location _) => (heap.read location).toOption
  | .serve (.getIndex object) => some object
  | .serve (.getIndexAt location) => (heap.read location).toOption
  | _ => none

/-- The object whose index an operation only asks for. -/
def Operation.asked? (heap : Heap) : Operation → Option Address
  | .existingIndexOf object => some object
  | .table (.existingIndexAt location) => (heap.read location).toOption
  | .serve (.getExistingIndexAt location) => (heap.read location).toOption
  | _ => none

/-- What a lookup with the constant-elements flag does besides. -/
def Operation.mark (i : Index) (s : Site) : Operation → Site
  | .indexOf _ true => { s with table := s.table.tag i }
  | .table (.indexAt _ true) => { s with table := s.table.tag i }
  | _ => s

/-- The list of objects after an operation. -/
def Operation.extend (s : Site) (known : List Nat) (operation : Operation) : List Nat :=
  match (operation.sought? s.heap).bind s.heap.number? with
  | some n => if n ∈ known then known else known ++ [n]
  | none => known

end Site

def Table.Answer.index? : Table.Answer → Option Index
  | .index i => some i
  | .response (.reply (.index i _)) => some i
  | .response (.reply (.existingIndex i)) => some i
  | _ => none

namespace Site

/-- The operation answers with an index and leaves `t`. -/
def Operation.Gives (operation : Operation) (s : Site) (i : Index) (t : Site) : Prop :=
  ∃ answer, (perform operation).Ends s (.ok answer) t ∧ answer.index? = some i

/-- Addresses, handles and the slots that a list of objects takes all stay within their words. -/
structure Roomy (s : Site) (known : List Nat) : Prop where
  space : s.heap.WithinSpace
  handles : s.heap.handles.slots.size < 4294967295
  slots : known.length + 1 < 4294967295

instance (s : Site) (known : List Nat) : Decidable (s.Roomy known) :=
  decidable_of_iff (s.heap.WithinSpace ∧ s.heap.handles.slots.size < 4294967295 ∧ known.length + 1 < 4294967295)
    ⟨fun h => ⟨h.1, h.2.1, h.2.2⟩, fun h => ⟨h.space, h.handles, h.slots⟩⟩

/-- The states that a table and its heap reach, each with the objects that lookups have met, in order of first appearance. -/
inductive Tracks : Site → List Nat → Prop
  | start {heap : Heap} : heap.Reached → Roomy ⟨heap, .empty heap.id⟩ [] → Tracks ⟨heap, .empty heap.id⟩ []
  | step {s : Site} {known : List Nat} (operation : Operation) : Tracks s known →
    (∀ h ∈ s.table.slots.handles, h ∉ operation.released) → (operation.next s).Roomy (operation.extend s known) →
    Tracks (operation.next s) (operation.extend s known)

/-- What a list of objects says about a table. -/
structure Follows (s : Site) (known : List Nat) : Prop where
  /-- The slots lead to the objects of the list, which are all different. -/
  slots : s.table.slots.handles.map s.heap.numberOf? = known.map some ∧ known.Nodup
  endIndex : s.table.endIndex.toNat = known.length + 1
  null : ∀ operation : Operation, operation.sought? s.heap = some .null → operation.Gives s .null s
  old : ∀ (operation : Operation) (a : Address) (n k : Nat), operation.sought? s.heap = some a →
    s.heap.number? a = some n → known[k]? = some n →
    operation.Gives s (.ofNat (k + 1)) (operation.mark (.ofNat (k + 1)) s)
  new : ∀ (operation : Operation) (a : Address) (n : Nat), operation.sought? s.heap = some a →
    s.heap.number? a = some n → n ∉ known → known.length + 2 < 4294967295 →
    operation.Gives s (.ofNat (known.length + 1)) (operation.next s) ∧
      (operation.next s).table.slots.handles.map (operation.next s).heap.numberOf? = (known ++ [n]).map some
  asked : ∀ (operation : Operation) (a : Address), operation.asked? s.heap = some a →
    operation.Gives s
      (if a = .null then .null
        else (((s.heap.number? a).bind fun n => known.idxOf? n).map fun k => Index.ofNat (k + 1)).getD .unknown) s

/-! ### Every form of lookup -/

theorem toOption_eq_some {ε α : Type} {x : Except ε α} {a : α} (h : x.toOption = some a) : x = .ok a := by
  cases x with
  | ok b => exact congrArg Except.ok (Option.some.inj h)
  | error e => simp [Except.toOption] at h

/-- Every form of lookup does what the lookup of its object does. -/
theorem gives_of_indexOf {operation : Operation} {s t : Site} {a : Address} {i : Index} {slot : Slot}
    (hsought : operation.sought? s.heap = some a) (hlive : a = .null ∨ s.heap.isLive a = true)
    (h : (indexOf a).Ends s (.ok i) t) (hslot : t.table.slots.get? i = some slot) :
    operation.Gives s i (operation.mark i t) := by
  cases operation with
  | indexOf object constant =>
    have hobject : object = a := Option.some.inj hsought
    subst hobject
    refine ⟨.index i, ?_, rfl⟩
    have hends := (tagging_ends h constant).map Table.Answer.index
    cases constant <;> exact hends
  | table operation =>
    cases operation with
    | indexAt location constant =>
      have hread := toOption_eq_some hsought
      refine ⟨.index i, ?_, rfl⟩
      have hends := (indexAt_ends hread h constant).map Table.Answer.index
      cases constant <;> exact hends
    | endIndex | isNull | slot | existingIndexAt | tag | isTagged => simp [Operation.sought?] at hsought
  | serve request =>
    refine ⟨.response (.reply (.index i slot)), ?_, rfl⟩
    cases request with
    | getIndex object =>
      have hobject : object = a := Option.some.inj hsought
      subst hobject
      exact (serve_getIndex_ends hlive (indexReply_ends h hslot)).map Table.Answer.response
    | getIndexAt location =>
      exact (serve_getIndexAt_ends (toOption_eq_some hsought) (indexReply_ends h hslot)).map Table.Answer.response
    | getExistingIndexAt location => simp [Operation.sought?] at hsought
    | getPointer index => simp [Operation.sought?] at hsought
  | heap | existingIndexOf | pointerOf => simp [Operation.sought?] at hsought

theorem gives_of_existingIndexOf {operation : Operation} {s : Site} {a : Address} {i : Index}
    (hasked : operation.asked? s.heap = some a) (h : (existingIndexOf a).Ends s (.ok i) s) : operation.Gives s i s := by
  cases operation with
  | existingIndexOf object =>
    have hobject : object = a := Option.some.inj hasked
    subst hobject
    exact ⟨.index i, h.map Table.Answer.index, rfl⟩
  | table operation =>
    cases operation with
    | existingIndexAt location =>
      exact ⟨.index i, (existingIndexAt_ends (toOption_eq_some hasked) h).map Table.Answer.index, rfl⟩
    | endIndex | isNull | slot | indexAt | tag | isTagged => simp [Operation.asked?] at hasked
  | serve request =>
    cases request with
    | getExistingIndexAt location =>
      refine ⟨.response (.reply (.existingIndex i)), ?_, rfl⟩
      exact (serve_getExistingIndexAt_ends (toOption_eq_some hasked) h).map Table.Answer.response
    | getIndex | getIndexAt | getPointer => simp [Operation.asked?] at hasked
  | heap | indexOf | pointerOf => simp [Operation.asked?] at hasked

/-! ### Operations that give no index -/

theorem withObjectAt_unread {location : Location} {answer : Address → Run Response} {s : Site}
    (hread : (s.heap.read location).toOption = none) : ((withObjectAt location answer).run s).state = s := by
  cases h : s.heap.read location with
  | ok a =>
    rw [h] at hread
    simp [Except.toOption] at hread
  | error e => exact (withObjectAt_ends_refusal h answer).2

private theorem alike_of_next {operation : Operation} {s : Site} (h : operation.next s = s) :
    (operation.next s).heap = s.heap ∧ (operation.next s).table.slots = s.table.slots ∧
      (operation.next s).table.heapId = s.table.heapId := by
  rw [h]
  exact ⟨rfl, rfl, rfl⟩

/-- An operation that seeks no object changes nothing but tags, or is an operation on the heap. -/
theorem next_of_unsought {operation : Operation} {s : Site} (hsought : operation.sought? s.heap = none) :
    (∃ heapOperation, operation = .heap heapOperation) ∨
      (operation.next s).heap = s.heap ∧ (operation.next s).table.slots = s.table.slots ∧
        (operation.next s).table.heapId = s.table.heapId := by
  have hsame : ∀ {α : Type} {f : α → Table.Answer} {a : Run α}, a.Keeps (· = ·) → ((f <$> a).run s).state = s :=
    fun ha => ((ha.map _) s).symm
  cases operation with
  | heap operation => exact Or.inl ⟨operation, rfl⟩
  | indexOf object constant => simp [Operation.sought?] at hsought
  | existingIndexOf object => exact Or.inr (alike_of_next (hsame (existingIndexOf_keeps object)))
  | pointerOf i => exact Or.inr (alike_of_next (hsame (pointerOf_keeps i)))
  | table operation =>
    right
    cases operation with
    | endIndex | isNull | isTagged | tag => exact ⟨rfl, rfl, rfl⟩
    | slot i => exact alike_of_next (hsame (slot_keeps i))
    | existingIndexAt location => exact alike_of_next (hsame ((read_keeps location).bind existingIndexOf_keeps))
    | indexAt location constant =>
      cases hread : s.heap.read location with
      | ok a => simp [Operation.sought?, hread, Except.toOption] at hsought
      | error e => exact alike_of_next ((ends_of_unread hread).1 constant |>.map Table.Answer.index).2
  | serve request =>
    right
    cases request with
    | getIndex object => simp [Operation.sought?] at hsought
    | getIndexAt location =>
      have hends := (serve (.getIndexAt location)).ends s
      have hstate : ((serve (.getIndexAt location)).run s).state = s := withObjectAt_unread hsought
      rw [hstate] at hends
      exact alike_of_next (hends.map Table.Answer.response).2
    | getExistingIndexAt location => exact alike_of_next (hsame (serve_getExistingIndexAt_keeps location))
    | getPointer i => exact alike_of_next (hsame (serve_getPointer_keeps i))

/-- A lookup that fails and changes nothing does so in every form. -/
theorem next_of_error {operation : Operation} {s : Site} {a : Address} {f : Fatal}
    (hsought : operation.sought? s.heap = some a) (h : (indexOf a).Ends s (.error f) s) : operation.next s = s := by
  cases operation with
  | indexOf object constant =>
    have hobject : object = a := Option.some.inj hsought
    subst hobject
    have hends : (tagging constant (indexOf object)).Ends s (.error f) s := h.bind_error
    exact (hends.map Table.Answer.index).2
  | table operation =>
    cases operation with
    | indexAt location constant =>
      exact ((indexAt_ends (toOption_eq_some hsought) h constant).map Table.Answer.index).2
    | endIndex | isNull | slot | existingIndexAt | tag | isTagged => simp [Operation.sought?] at hsought
  | serve request =>
    have hreply : ∀ object, object = a → (indexReply object).Ends s (.error f) s := by
      rintro object rfl
      exact h.bind_error
    cases request with
    | getIndex object =>
      by_cases hlive : object = .null ∨ s.heap.isLive object = true
      · exact ((serve_getIndex_ends hlive (hreply object (Option.some.inj hsought))).map Table.Answer.response).2
      · exact ((serve_getIndex_ends_refusal hlive).map Table.Answer.response).2
    | getIndexAt location =>
      exact ((serve_getIndexAt_ends (toOption_eq_some hsought) (hreply a rfl)).map Table.Answer.response).2
    | getExistingIndexAt location => simp [Operation.sought?] at hsought
    | getPointer index => simp [Operation.sought?] at hsought
  | heap | existingIndexOf | pointerOf => simp [Operation.sought?] at hsought

/-! ### Lookups through the list -/

namespace Knows

variable {s : Site} {known : List Nat}

theorem indexOf_null (s : Site) : (indexOf .null).Ends s (.ok .null) s := Action.pure_ends _ s

theorem indexOf_old (hs : s.Knows known) {a : Address} {n k : Nat} (hn : s.heap.number? a = some n)
    (hk : known.idxOf? n = some k) : (indexOf a).Ends s (.ok (.ofNat (k + 1))) s := by
  obtain ⟨r, t, hends, hlooked⟩ := exists_looked a s
  have hfind := hs.find_eq a
  rw [hn, Option.bind_some, hk, Option.map_some] at hfind
  cases hlooked with
  | null hnull =>
    rw [hnull, hs.heap.number?_null] at hn
    simp at hn
  | foreign _ hid => exact absurd hs.native hid
  | known _ h =>
    rw [hfind, Except.ok.injEq, Option.some.injEq] at h
    rwa [h]
  | unreadable _ h | stale _ h | full _ h | learnt _ h =>
    rw [hfind] at h
    simp at h

theorem indexOf_new (hs : s.Knows known) (hroom : known.length + 2 < 4294967295) {a : Address} {n : Nat}
    (hn : s.heap.number? a = some n) (hnew : n ∉ known) :
    ∃ slots, s.table.slots.append? (s.heap.handles.insert a).1 = some (s.table.slots.size, slots) ∧
      (indexOf a).Ends s (.ok s.table.slots.size)
        { heap := s.heap.withHandle a, table := { s.table with slots } } := by
  obtain ⟨r, t, hends, hlooked⟩ := exists_looked a s
  have hfind := hs.find_eq a
  rw [hn, Option.bind_some, List.idxOf?_eq_none_iff.2 hnew, Option.map_none] at hfind
  cases hlooked with
  | null hnull =>
    rw [hnull, hs.heap.number?_null] at hn
    simp at hn
  | foreign _ hid => exact absurd hs.native hid
  | unreadable _ h | known _ h =>
    rw [hfind] at h
    simp at h
  | stale _ _ hlive =>
    rw [Heap.number?_eq_none_iff.2 hlive] at hn
    simp at hn
  | full _ _ _ happend =>
    rw [hs.fits.append?, hs.length_eq, if_pos hroom] at happend
    simp at happend
  | learnt _ _ _ happend =>
    obtain ⟨-, rfl, -⟩ := hs.fits.append?_eq_some_iff.1 happend
    exact ⟨_, happend, hends⟩

theorem indexOf_stale (hs : s.Knows known) {a : Address} (hnull : a ≠ .null) (hn : s.heap.number? a = none) :
    (indexOf a).Ends s (.error (.heap (.staleAddress a))) s := by
  obtain ⟨r, t, hends, hlooked⟩ := exists_looked a s
  have hfind := hs.find_eq a
  rw [hn, Option.bind_none, Option.map_none] at hfind
  have hlive := Heap.number?_eq_none_iff.1 hn
  cases hlooked with
  | null h => exact absurd h hnull
  | foreign _ hid => exact absurd hs.native hid
  | unreadable _ h | known _ h =>
    rw [hfind] at h
    simp at h
  | stale => exact hends
  | full _ _ h | learnt _ _ h =>
    rw [hlive] at h
    simp at h

end Knows

theorem Operation.Gives.next_eq {operation : Operation} {s t : Site} {i : Index} (h : operation.Gives s i t) :
    operation.next s = t := by
  obtain ⟨answer, hends, -⟩ := h
  exact hends.2

theorem Operation.mark_null (operation : Operation) (s : Site) : operation.mark .null s = s := by
  simp only [Operation.mark]
  split <;> rfl

namespace Knows

variable {s : Site} {known : List Nat}

theorem mark (hs : s.Knows known) (operation : Operation) (i : Index) : (operation.mark i s).Knows known := by
  simp only [Operation.mark]
  split <;> exact ⟨hs.heap, hs.native, hs.fits, hs.numbers⟩

theorem gives_null {operation : Operation} (hsought : operation.sought? s.heap = some .null) :
    operation.Gives s .null s := by
  have hgives := gives_of_indexOf hsought (Or.inl rfl) (indexOf_null s) (SlotStore.get?_null _)
  rwa [operation.mark_null] at hgives

theorem gives_old (hs : s.Knows known) {operation : Operation} {a : Address} {n k : Nat}
    (hsought : operation.sought? s.heap = some a) (hn : s.heap.number? a = some n) (hk : known.idxOf? n = some k) :
    operation.Gives s (.ofNat (k + 1)) (operation.mark (.ofNat (k + 1)) s) := by
  have hlive := Heap.exists_number?_iff.1 ⟨n, hn⟩
  have hlt : k < s.table.slots.handles.length := by
    rw [hs.length_eq]
    exact (List.idxOf?_eq_some_iff.1 hk).1
  exact gives_of_indexOf hsought (Or.inr hlive) (hs.indexOf_old hn hk)
    (hs.fits.get?_ofNat_succ (List.getElem?_eq_getElem hlt))

theorem gives_new (hs : s.Knows known) (hroom : s.Roomy known) {operation : Operation} {a : Address} {n : Nat}
    (hsought : operation.sought? s.heap = some a) (hn : s.heap.number? a = some n) (hnew : n ∉ known)
    (hslots : known.length + 2 < 4294967295) :
    ∃ t, operation.Gives s (.ofNat (known.length + 1)) t ∧ t.Knows (known ++ [n]) := by
  have hlive := Heap.exists_number?_iff.1 ⟨n, hn⟩
  obtain ⟨slots, happend, hends⟩ := hs.indexOf_new hslots hn hnew
  obtain ⟨m, hknows, hm⟩ := hs.learnt hlive happend
  have hhandles := hroom.handles
  have hmn : m = n := Option.some.inj ((hm (by omega)).symm.trans hn)
  subst hmn
  have hslot : slots.get? s.table.slots.size = some (.ref (s.heap.handles.insert a).1) := by
    obtain ⟨-, -, rfl⟩ := hs.fits.append?_eq_some_iff.1 happend
    exact (hs.fits.of_append? happend).get?_ofNat_succ (by simp)
  have hgives := gives_of_indexOf hsought (Or.inr hlive) hends hslot
  have hsize : s.table.slots.size = .ofNat (known.length + 1) := by rw [← hs.length_eq, SlotStore.size]
  rw [hsize] at hgives
  exact ⟨_, hgives, hknows.mark operation _⟩

theorem follows (hs : s.Knows known) (hnodup : known.Nodup) (hroom : s.Roomy known) : s.Follows known where
  slots := ⟨hs.numbers, hnodup⟩
  endIndex := by
    rw [Table.endIndex, hs.fits.toNat_size, hs.length_eq]
  null operation hsought := gives_null hsought
  old operation a n k hsought hn hk := by
    obtain ⟨hlt, hget⟩ := List.getElem?_eq_some_iff.1 hk
    have hidx : known.idxOf? n = some k := by
      refine List.idxOf?_eq_some_iff.2 ⟨hlt, hget, fun j hj heq => ?_⟩
      rw [← hget] at heq
      exact Nat.ne_of_lt hj ((List.Nodup.getElem_inj_iff hnodup).1 heq)
    exact hs.gives_old hsought hn hidx
  new operation a n hsought hn hnew hslots := by
    obtain ⟨t, hgives, ht⟩ := hs.gives_new hroom hsought hn hnew hslots
    rw [hgives.next_eq]
    exact ⟨hgives, ht.numbers⟩
  asked operation a hasked := gives_of_existingIndexOf hasked (hs.existingIndexOf a)

theorem next (hs : s.Knows known) (hnodup : known.Nodup) (hroom : s.Roomy known) {operation : Operation}
    (hspared : ∀ h ∈ s.table.slots.handles, h ∉ operation.released)
    (hafter : (operation.next s).Roomy (operation.extend s known)) :
    (operation.next s).Knows (operation.extend s known) ∧ (operation.extend s known).Nodup := by
  have hslots := hafter.slots
  simp only [Operation.extend] at hslots ⊢
  cases hsought : operation.sought? s.heap with
  | none =>
    rw [Option.bind_none]
    refine ⟨?_, hnodup⟩
    rcases next_of_unsought hsought with ⟨heapOperation, rfl⟩ | ⟨hheap, hslots, hid⟩
    · exact hs.change (Heap.perform_change s.heap heapOperation) hafter.space hspared
    · exact ⟨hheap ▸ hs.heap, by rw [hheap, hid, hs.native], hslots ▸ hs.fits, by rw [hheap, hslots, hs.numbers]⟩
  | some a =>
    rw [Option.bind_some]
    cases hn : s.heap.number? a with
    | none =>
      -- Null has its index already, and a stale address is refused before anything is appended.
      have hnext : operation.next s = s := by
        by_cases hnull : a = .null
        · subst hnull
          exact (gives_null hsought).next_eq
        · exact next_of_error hsought (hs.indexOf_stale hnull hn)
      rw [hnext]
      exact ⟨hs, hnodup⟩
    | some n =>
      by_cases hmem : n ∈ known
      · obtain ⟨k, hk⟩ := Option.isSome_iff_exists.1 (List.isSome_idxOf?.2 hmem)
        simp only [hmem, if_true]
        rw [(hs.gives_old hsought hn hk).next_eq]
        exact ⟨hs.mark operation _, hnodup⟩
      · simp only [hsought, Option.bind_some, hn, hmem, if_false, List.length_append, List.length_singleton] at hslots
        obtain ⟨t, hgives, ht⟩ := hs.gives_new hroom hsought hn hmem hslots
        simp only [hmem, if_false]
        rw [hgives.next_eq]
        refine ⟨ht, hnodup.append (List.nodup_singleton n) ?_⟩
        exact List.disjoint_singleton.2 hmem

end Knows

theorem Tracks.knows {s : Site} {known : List Nat} (h : s.Tracks known) :
    s.Knows known ∧ known.Nodup ∧ s.Roomy known := by
  induction h with
  | start hheap hroom =>
    exact ⟨⟨hheap.wellFormed, rfl, SlotStore.empty_fits, rfl⟩, List.nodup_nil, hroom⟩
  | step operation _ hspared hroom ih =>
    obtain ⟨hknows, hnodup, hbefore⟩ := ih
    obtain ⟨hnext, hdistinct⟩ := hknows.next hnodup hbefore hspared hroom
    exact ⟨hnext, hdistinct, hroom⟩

/-- In every state that a table reaches, the list of the objects that its lookups have met says what every lookup answers and what it changes. -/
theorem follows_of_tracks {s : Site} {known : List Nat} (h : s.Tracks known) : s.Follows known := by
  obtain ⟨hknows, hnodup, hroom⟩ := h.knows
  exact hknows.follows hnodup hroom

/-- Two objects of one class, met in the order opposite to that of their allocation, with a collection and a lookup of an address that it left behind in between. -/
theorem follows_of_lookups_in_reverse : ∃ s known, Tracks s known ∧ known = [1, 0] ∧ Follows s known := by
  have hstart := Tracks.start (@Heap.Reached.created 0 .default _ rfl) (by decide)
  have hdefined := hstart.step (.heap (.define ⟨"p/A", [], false⟩)) (by decide) (by decide +kernel)
  have hfirst := hdefined.step (.heap (.allocate 0)) (by decide) (by decide +kernel)
  have hsecond := hfirst.step (.heap (.allocate 0)) (by decide) (by decide +kernel)
  have hmet := hsecond.step (.table (.indexAt (.handle ⟨1⟩) true)) (by decide +kernel) (by decide +kernel)
  have hmoved := hmet.step (.heap .collect) (by decide +kernel) (by decide +kernel)
  have hrefused := hmoved.step (.indexOf ⟨0x1000⟩ false) (by decide +kernel) (by decide +kernel)
  have hboth := hrefused.step (.serve (.getIndexAt (.handle ⟨0⟩))) (by decide +kernel) (by decide +kernel)
  exact ⟨_, _, hboth, by decide +kernel, follows_of_tracks hboth⟩

end KnownObjects.Site
