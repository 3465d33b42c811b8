import KnownObjects.Proofs.Table.Roster

/-!
# What a use of a table can do

Whatever is asked of a table, short of an operation on its heap, it either leaves the heap and the slots alone or makes one handle. The handle is for an object that exists, and it goes into a new slot; only a table that has no room for one more slot leaves it to nobody, and then the use fails with that. `Site.Used` lists these ways. In each of them the heap goes through at most one `Heap.Change`, and a table that knew the objects behind its slots still does.
-/

namespace KnownObjects.Site

inductive Used (s : Site) : Except Fatal Table.Answer → Site → Prop
  | plain {r : Except Fatal Table.Answer} {t : Site} : t.heap = s.heap → t.table.slots = s.table.slots →
    t.table.heapId = s.table.heapId → Used s r t
  | learnt {r : Except Fatal Table.Answer} {t : Site} {a : Address} {i : Index} : s.heap.isLive a = true →
    s.table.slots.append? (s.heap.handles.insert a).1 = some (i, t.table.slots) → t.heap = s.heap.withHandle a →
    t.table.heapId = s.table.heapId → Used s r t
  /-- The handle that was made is not given back. -/
  | full {t : Site} {a : Address} : s.heap.isLive a = true →
    s.table.slots.append? (s.heap.handles.insert a).1 = none → t.heap = s.heap.withHandle a →
    t.table.slots = s.table.slots → t.table.heapId = s.table.heapId → Used s (.error .tableFull) t

variable {a : Address} {s t u : Site} {r : Except Fatal Index}

/-- A use that ends like a lookup, up to tags and up to the form of the answer. -/
theorem Looked.used (h : Looked a s r t) {q : Except Fatal Table.Answer} (hheap : u.heap = t.heap)
    (hslots : u.table.slots = t.table.slots) (hid : u.table.heapId = t.table.heapId)
    (herror : ∀ f, r = .error f → q = .error f) : Used s q u := by
  cases h with
  | null | foreign | unreadable | known | stale => exact .plain hheap hslots hid
  | full _ _ hlive hfull =>
    rw [herror _ rfl]
    exact .full hlive hfull hheap hslots hid
  | learnt _ _ hlive happend => exact .learnt hlive (by rw [hslots]; exact happend) hheap hid

theorem exists_indexReply_ends (h : (indexOf a).Ends s r t) :
    ∃ q, (indexReply a).Ends s q t ∧ ∀ f, r = .error f → q = .error f := by
  cases r with
  | error f => exact ⟨.error f, h.bind_error, fun _ hf => by rw [Except.error.inj hf]⟩
  | ok i =>
    have hslot := slot_ends i t
    cases hget : (t.table.slots.get i).mapError id with
    | ok slot =>
      rw [hget] at hslot
      exact ⟨_, h.bind (hslot.bind (Action.pure_ends _ t)), by simp⟩
    | error f =>
      rw [hget] at hslot
      exact ⟨_, h.bind hslot.bind_error, by simp⟩

theorem exists_used_of_sought {operation : Operation} (hsought : operation.sought? s.heap = some a) :
    ∃ q u, (perform operation).Ends s q u ∧ Used s q u := by
  obtain ⟨r, t, hends, hlooked⟩ := exists_looked a s
  have hmapped : ∀ f, r = .error f → r.map Table.Answer.index = .error f := by
    rintro f rfl
    rfl
  obtain ⟨q, hreply, herror⟩ := exists_indexReply_ends hends
  have hanswer : ∀ f, r = .error f → q.map Table.Answer.response = .error f := by
    intro f hf
    rw [herror f hf]
    rfl
  cases operation with
  | indexOf object constant =>
    obtain rfl : object = a := Option.some.inj hsought
    exact ⟨_, _, (tagging_ends hends constant).map Table.Answer.index, hlooked.used rfl rfl rfl hmapped⟩
  | table operation =>
    cases operation with
    | indexAt location constant =>
      have hread := toOption_eq_some hsought
      exact ⟨_, _, (indexAt_ends hread hends constant).map Table.Answer.index, hlooked.used rfl rfl rfl hmapped⟩
    | endIndex | isNull | slot | existingIndexAt | tag | isTagged => simp [Operation.sought?] at hsought
  | serve request =>
    cases request with
    | getIndex object =>
      obtain rfl : object = a := Option.some.inj hsought
      by_cases hlive : object = .null ∨ s.heap.isLive object = true
      · exact ⟨_, t, (serve_getIndex_ends hlive hreply).map Table.Answer.response, hlooked.used rfl rfl rfl hanswer⟩
      · exact ⟨_, s, (serve_getIndex_ends_refusal hlive).map Table.Answer.response, .plain rfl rfl rfl⟩
    | getIndexAt location =>
      have hends := serve_getIndexAt_ends (toOption_eq_some hsought) hreply
      exact ⟨_, t, hends.map Table.Answer.response, hlooked.used rfl rfl rfl hanswer⟩
    | getExistingIndexAt | getPointer => simp [Operation.sought?] at hsought
  | heap | existingIndexOf | pointerOf => simp [Operation.sought?] at hsought

/-- Every use of a table ends in one of the ways listed. -/
theorem used_perform {operation : Operation} (huse : ∀ heapOperation, operation ≠ .heap heapOperation) (s : Site) :
    Used s ((perform operation).run s).result (operation.next s) := by
  cases hsought : operation.sought? s.heap with
  | none =>
    rcases next_of_unsought hsought with ⟨heapOperation, rfl⟩ | ⟨hheap, hslots, hid⟩
    · exact absurd rfl (huse heapOperation)
    · exact .plain hheap hslots hid
  | some a =>
    obtain ⟨q, u, hends, hused⟩ := exists_used_of_sought hsought
    rw [Operation.next, hends.1, hends.2]
    exact hused

/-- To the heap, a use of a table is at most one more handle. -/
theorem Used.change {q : Except Fatal Table.Answer} (h : Used s q u) : Heap.Change s.heap [] u.heap := by
  cases h with
  | plain hheap =>
    rw [hheap]
    exact .none
  | learnt hlive _ hheap =>
    rw [hheap]
    exact .bound _ hlive
  | full hlive _ hheap =>
    rw [hheap]
    exact .bound _ hlive

theorem Used.length_le {q : Except Fatal Table.Answer} (hs : s.table.slots.Fits) (h : Used s q t) :
    t.table.slots.handles.length ≤ s.table.slots.handles.length + 1 := by
  cases h with
  | plain _ hslots | full _ _ _ hslots =>
    rw [hslots]
    exact Nat.le_succ _
  | learnt _ happend =>
    obtain ⟨-, -, hslots⟩ := hs.append?_eq_some_iff.1 happend
    simp [hslots]

/-- A search can find only what is there. -/
theorem isLive_of_search {heap : Heap} (hh : heap.WellFormed) {i : Index} {entries : List (Index × Handle)}
    (h : Table.search heap a entries = .ok (some i)) : heap.isLive a = true := by
  obtain ⟨handle, -, hresolve⟩ := search_mem h
  exact hh.isLive_of_resolve hresolve

/-- What a table knows is in its slots. -/
theorem Knows.of_slots_eq {known : List Nat} (hs : s.Knows known) (hheap : t.heap = s.heap) (hslots : t.table.slots = s.table.slots)
    (hid : t.table.heapId = s.table.heapId) : t.Knows known :=
  ⟨hheap ▸ hs.heap, by rw [hheap, hid, hs.native], hslots ▸ hs.fits, by rw [hheap, hslots, hs.numbers]⟩

/-- However a table is used, all its handles lead to objects afterwards if they did before. -/
theorem Knows.used {known : List Nat} (hs : s.Knows known) {q : Except Fatal Table.Answer} (h : Used s q t) :
    ∃ known, t.Knows known := by
  cases h with
  | plain hheap hslots hid => exact ⟨known, hs.of_slots_eq hheap hslots hid⟩
  | learnt hlive happend hheap hid =>
    obtain ⟨n, hknows, -⟩ := hs.learnt hlive happend
    exact ⟨known ++ [n], hknows.of_slots_eq hheap rfl hid⟩
  | full hlive _ hheap hslots hid => exact ⟨known, (hs.withHandle hlive).of_slots_eq hheap hslots hid⟩

end KnownObjects.Site
