import KnownObjects.Proofs.Heap.Ages
import KnownObjects.Proofs.Host.Events

/-!
# Stale addresses

An address that was kept across a collection is refused wherever it is brought up, and no state changes. A table says of it that the object is unknown, if nobody else has given back the table's own handles. No later event makes the address good again, since nothing comes to life below the frontier that there was before.

`Elapsed` says all this of a run of events at a host in three parts: an address is live after the first part and brought up after the second one, and the third one is what may follow.
-/

namespace KnownObjects.Host

/-! ### The run and what is said of it -/

def follow (s : Host) (events : List Event) : Host := events.foldl after s

/-- No event gives back a handle that the table holds when it happens. -/
def Spares (k : Nat) : Host → List Event → Prop
  | _, [] => True
  | s, e :: rest => (∀ h ∈ s.handlesOf k, h ∉ e.released s) ∧ Spares k (s.after e) rest

instance decidableSpares (k : Nat) : (s : Host) → (events : List Event) → Decidable (Spares k s events)
  | _, [] => isTrue trivial
  | s, e :: rest =>
    have := decidableSpares k (s.after e) rest
    inferInstanceAs (Decidable (_ ∧ _))

/-- Wherever the address is brought up it is refused, and the host stays what it is. -/
structure Refuses (s : Host) (a : Address) : Prop where
  newHandle : s.onHeap (.newHandle a) = (.heap (.refused (.staleAddress a)), s)
  classOf : s.heap.classOf a = .error (.staleAddress a)
  hashOf : s.heap.hashOf a = .error (.staleAddress a)
  fieldAt : ∀ slot, s.heap.fieldAt a slot = .error (.staleAddress a)
  field : ∀ name, s.heap.field a name = .error (.staleAddress a)
  indexOf : ∀ k table constant, s.table? k = some table →
    ∃ f, s.atTable k (.indexOf a constant) = (.table (.error f), s)
  getIndex : ∀ k table, s.table? k = some table →
    s.atTable k (.serve (.getIndex a)) = (.table (.ok (.response (.refusal (HeapError.staleAddress a).message))), s)

/-- What has become of the addresses of `s` at a later host `t`, and of those that are dead by then at a host `u` later still. -/
structure Aged (s t u : Host) : Prop where
  gone : ∀ a, s.heap.isLive a = true → t.heap.isLive a = false → u.heap.isLive a = false
  /-- A collection moves every object beyond all that was live before. -/
  moved : t.heap.collect.2.WithinSpace → ∀ b n, t.heap.number? b = some n →
    ∃ c, t.heap.collect.2.number? c = some n ∧ ∀ a, s.heap.isLive a = true → a.toNat < c.toNat
  /-- A collection keeps the order of the objects. -/
  ordered : t.heap.collect.2.WithinSpace → ∀ a b c d m n, t.heap.number? a = some m → t.heap.number? b = some n →
    t.heap.collect.2.number? c = some m → t.heap.collect.2.number? d = some n → a.toNat < b.toNat → c.toNat < d.toNat

/-- What becomes of addresses in a run of three parts. They are taken down after the first part and brought up after the second one. -/
structure Elapsed (start : Host) (before middle rest : List Event) : Prop where
  aged : Aged (start.follow before) (start.follow (before ++ middle)) (start.follow (before ++ middle ++ rest))
  refused : .heap .collect ∈ middle → ∀ a, (start.follow before).heap.isLive a = true →
    (start.follow (before ++ middle)).heap.isLive a = false ∧ (start.follow (before ++ middle)).Refuses a
  unknown : .heap .collect ∈ middle → ∀ a, (start.follow before).heap.isLive a = true → ∀ k table,
    (start.follow (before ++ middle)).table? k = some table → Spares k start (before ++ middle) →
    (start.follow (before ++ middle)).atTable k (.existingIndexOf a) =
      (.table (.ok (.index .unknown)), start.follow (before ++ middle))

/-! ### The heap along a run -/

variable {s : Host} {events : List Event} {a : Address}

theorem follow_append (s : Host) (before after : List Event) :
    s.follow (before ++ after) = (s.follow before).follow after :=
  List.foldl_append

theorem frontier_le_follow (s : Host) (events : List Event) : s.heap.frontier ≤ (s.follow events).heap.frontier := by
  induction events generalizing s with
  | nil => exact Nat.le_refl _
  | cons e rest ih => exact Nat.le_trans (after_change s e).frontier_le (ih (s.after e))

/-- A run that ends within the address space was within it all the time. -/
theorem follow_ages (hs : s.heap.WellFormed) (hspace : (s.follow events).heap.WithinSpace) :
    (s.follow events).heap.WellFormed ∧ Heap.Ages s.heap (s.follow events).heap := by
  induction events generalizing s with
  | nil => exact ⟨hs, .refl _⟩
  | cons e rest ih =>
    have hafter : (s.after e).heap.WithinSpace := Nat.lt_of_le_of_lt (frontier_le_follow _ rest) hspace
    obtain ⟨hformed, hages⟩ := ih (hs.change (after_change s e) hafter) hspace
    exact ⟨hformed, (hs.ages (after_change s e) hafter).trans hages⟩

/-- What is live before a collection is dead at any time after it. -/
theorem isLive_follow_of_collect (hs : s.heap.WellFormed) (hspace : (s.follow events).heap.WithinSpace)
    (hcollect : .heap .collect ∈ events) (ha : s.heap.isLive a = true) : (s.follow events).heap.isLive a = false := by
  obtain ⟨early, late, rfl⟩ := List.append_of_mem hcollect
  rw [follow_append] at hspace ⊢
  have hcollected : ((s.follow early).after (.heap .collect)).heap.WithinSpace :=
    Nat.lt_of_le_of_lt (frontier_le_follow _ late) hspace
  have hearly : (s.follow early).heap.WithinSpace :=
    Nat.lt_of_le_of_lt (after_change _ (.heap .collect)).frontier_le hcollected
  obtain ⟨hformed, hages⟩ := follow_ages hs hearly
  -- The address is below the frontier at the collection, and all that is live afterwards is not.
  have hbelow := Nat.lt_of_lt_of_le (hs.lt_frontier_of_isLive ha) hages.frontier
  obtain ⟨-, hlate⟩ := follow_ages (hformed.change (after_change _ (.heap .collect)) hcollected) hspace
  rw [Bool.eq_false_iff]
  intro hlive
  have hmoved := (after_change (s.follow early) (.heap .collect)).frontier_le
  rcases hlate.isLive a hlive with hlive | hbeyond
  · have := hformed.frontier_le_of_isLive_collect hcollected hlive
    omega
  · omega

theorem aged_of_ages {s t u : Host} (hs : s.heap.WellFormed) (ht : t.heap.WellFormed) (hst : Heap.Ages s.heap t.heap)
    (htu : Heap.Ages t.heap u.heap) : Aged s t u where
  gone a ha hdead := by
    have hbelow := Nat.lt_of_lt_of_le (hs.lt_frontier_of_isLive ha) hst.frontier
    rw [Bool.eq_false_iff]
    intro hlive
    rcases htu.isLive a hlive with hlive | hbeyond
    · rw [hdead] at hlive
      simp at hlive
    · omega
  moved hspace b n hn := by
    refine ⟨t.heap.relocate b, ht.number?_relocate hspace hn, fun a ha => ?_⟩
    obtain ⟨o, ho, rfl⟩ := Heap.exists_of_number? hn
    have hbelow := Nat.lt_of_lt_of_le (hs.lt_frontier_of_isLive ha) hst.frontier
    have hmoved := (ht.bounds_relocate hspace (List.mem_of_getElem? ho)).1
    omega
  ordered hspace a b c d m n ha hb hc hd hlt :=
    ((ht.collect hspace).toNat_lt_iff hc hd).2 ((ht.toNat_lt_iff ha hb).1 hlt)

/-! ### Who refuses -/

/-- A use of a table that leaves its site alone leaves the host alone. -/
theorem atTable_of_ends {k : Nat} {table : Table} (htable : s.table? k = some table) {operation : Site.Operation}
    {r : Except Fatal Table.Answer} (hends : (Site.perform operation).Ends ⟨s.heap, table⟩ r ⟨s.heap, table⟩) :
    s.atTable k operation = (.table r, s) := by
  simp only [atTable, htable]
  rw [hends.1, hends.2, set_table htable]

theorem indexOf_of_dead (hs : s.heap.WellFormed) (hnull : a ≠ .null) (ha : s.heap.isLive a = false) (table : Table) :
    ∃ f, (Site.indexOf a).Ends ⟨s.heap, table⟩ (.error f) ⟨s.heap, table⟩ := by
  obtain ⟨r, t, hends, hlooked⟩ := Site.exists_looked a ⟨s.heap, table⟩
  cases hlooked with
  | null h => exact absurd h hnull
  | foreign | unreadable | stale => exact ⟨_, hends⟩
  | known _ hfind =>
    have hlive := Site.isLive_of_search hs hfind
    rw [ha] at hlive
    simp at hlive
  | full _ _ hlive | learnt _ _ hlive =>
    rw [ha] at hlive
    simp at hlive

theorem refuses_of_dead (hs : s.heap.WellFormed) (hnull : a ≠ .null) (ha : s.heap.isLive a = false) : s.Refuses a := by
  have hobject : s.heap.object a = .error (.staleAddress a) := by
    simp only [Heap.isLive, Option.isSome_eq_false_iff, Option.isNone_iff_eq_none] at ha
    simp only [Heap.object, ha]
  constructor
  case newHandle =>
    simp [onHeap, Heap.perform, Heap.newHandle, ha]
  case classOf =>
    rw [Heap.classOf, hobject]
    rfl
  case hashOf =>
    rw [Heap.hashOf, hobject]
    rfl
  case fieldAt =>
    intro slot
    rw [Heap.fieldAt, hobject]
    rfl
  case field =>
    intro name
    rw [Heap.field, hobject]
    rfl
  case indexOf =>
    intro k table constant htable
    obtain ⟨f, hends⟩ := indexOf_of_dead hs hnull ha table
    have htagging : (Site.tagging constant (Site.indexOf a)).Ends ⟨s.heap, table⟩ (.error f) ⟨s.heap, table⟩ :=
      hends.bind_error
    exact ⟨f, atTable_of_ends htable (htagging.map Table.Answer.index)⟩
  case getIndex =>
    intro k table htable
    have hserve := Site.serve_getIndex_ends_refusal (s := ⟨s.heap, table⟩) (a := a) (by simp [ha, hnull])
    exact atTable_of_ends htable (hserve.map Table.Answer.response)

/-! ### Who does not know -/

variable {t : Host} {k : Nat}

/-- If there is such a table, all its handles lead to objects. -/
def Recalls (k : Nat) (s : Host) : Prop := ∀ table, s.table? k = some table → ∃ known, Site.Knows ⟨s.heap, table⟩ known

/-- A table stays as it is while the heap changes. -/
theorem Recalls.of_change (hs : Recalls k s) {handles : List Handle} (hchange : Heap.Change s.heap handles t.heap)
    (hspace : t.heap.WithinSpace) (hspared : ∀ h ∈ s.handlesOf k, h ∉ handles) (hsame : t.table? k = s.table? k) :
    Recalls k t := by
  intro table htable
  rw [hsame] at htable
  obtain ⟨known, hknows⟩ := hs table htable
  refine ⟨known, hknows.change hchange hspace fun h hh => hspared h ?_⟩
  simpa [handlesOf, htable] using hh

theorem Recalls.use (hs : Recalls k s) {table : Table} (htable : s.table? k = some table) (operation : Site.Operation)
    (hspace : (s.after (.use k operation)).heap.WithinSpace)
    (hspared : ∀ h ∈ s.handlesOf k, h ∉ (Event.use k operation).released s) : Recalls k (s.after (.use k operation)) := by
  obtain ⟨known, hknows⟩ := hs table htable
  rw [after_use htable] at hspace ⊢
  intro used hused
  obtain rfl := Option.some.inj (table?_set_self hused)
  by_cases huse : ∀ heapOperation, operation ≠ .heap heapOperation
  · exact hknows.used (Site.used_perform huse _)
  · push Not at huse
    obtain ⟨heapOperation, rfl⟩ := huse
    refine ⟨known, hknows.change (Heap.perform_change s.heap heapOperation) hspace ?_⟩
    simpa [handlesOf, Event.released, htable, Site.Operation.released] using hspared

theorem Recalls.dropTable (hs : Recalls k s) (j : Nat) (hspace : (s.after (.dropTable j)).heap.WithinSpace)
    (hspared : ∀ h ∈ s.handlesOf k, h ∉ s.handlesOf j) : Recalls k (s.after (.dropTable j)) := by
  have hkept := fun hsame => hs.of_change (dropTable_change s j) hspace hspared hsame
  cases hdropped : s.table? j with
  | none => exact hkept (by rw [after_dropTable_of_absent hdropped])
  | some dropped =>
    by_cases hne : j = k
    · subst hne
      intro table htable
      rw [after_dropTable hdropped] at htable
      exact nomatch table?_set_self htable
    · refine hkept ?_
      rw [after_dropTable hdropped, table?_set_ne hne]
      rfl

theorem Recalls.createTable (hs : Recalls k s) (hheap : s.heap.WellFormed) : Recalls k (s.after .createTable) := by
  intro table htable
  rw [after, perform, table?, List.getElem?_append] at htable
  split at htable
  · exact hs table htable
  · have hmem := List.mem_of_getElem? (Option.join_eq_some_iff.1 htable)
    obtain rfl : table = .empty s.heap.id := by simpa using hmem
    exact ⟨[], hheap, rfl, SlotStore.empty_fits, rfl⟩

theorem Recalls.after (hs : Recalls k s) (hheap : s.heap.WellFormed) {e : Event} (hspace : (s.after e).heap.WithinSpace)
    (hspared : ∀ h ∈ s.handlesOf k, h ∉ e.released s) : Recalls k (s.after e) := by
  have hkept := fun hsame => hs.of_change (after_change s e) hspace hspared hsame
  cases e with
  | heap operation => exact hkept rfl
  | createTable => exact hs.createTable hheap
  | use j operation =>
    cases hused : s.table? j with
    | none => exact hkept (by rw [after_use_of_absent hused])
    | some used =>
      by_cases hne : j = k
      · subst hne
        exact hs.use hused operation hspace hspared
      · refine hkept ?_
        rw [after_use hused, table?_set_ne hne]
        rfl
  | dropTable j => exact hs.dropTable j hspace hspared
  | abort j id cause =>
    rw [after_abort] at hspace ⊢
    exact hs.dropTable j hspace hspared

theorem Recalls.follow (hs : Recalls k s) (hheap : s.heap.WellFormed) (hspace : (s.follow events).heap.WithinSpace)
    (hspared : Spares k s events) : Recalls k (s.follow events) := by
  induction events generalizing s with
  | nil => exact hs
  | cons e rest ih =>
    have hafter : (s.after e).heap.WithinSpace := Nat.lt_of_le_of_lt (frontier_le_follow _ rest) hspace
    exact ih (hs.after hheap hafter hspared.1) (hheap.change (after_change s e) hafter) hspace hspared.2

theorem existingIndexOf_of_dead (hs : Recalls k s) {table : Table} (htable : s.table? k = some table) (hnull : a ≠ .null)
    (ha : s.heap.isLive a = false) :
    s.atTable k (.existingIndexOf a) = (.table (.ok (.index .unknown)), s) := by
  obtain ⟨known, hknows⟩ := hs table htable
  have hends := hknows.existingIndexOf a
  rw [if_neg hnull, Heap.number?_eq_none_iff.2 ha] at hends
  exact atTable_of_ends htable (hends.map Table.Answer.index)

/-- In every run that does not run out of addresses, what was live and is dead stays dead, collections move objects beyond all earlier addresses and keep their order, and no operation takes an address from before a collection for that of an object. -/
theorem elapsed_of_reached {heap : Heap} (hheap : heap.Reached) (before middle rest : List Event)
    (hspace : (Host.follow ⟨heap, []⟩ (before ++ middle ++ rest)).heap.WithinSpace) :
    Elapsed ⟨heap, []⟩ before middle rest := by
  have hstart : Heap.WellFormed (Host.mk heap []).heap := hheap.wellFormed
  rw [follow_append] at hspace
  have hboth : (Host.follow ⟨heap, []⟩ (before ++ middle)).heap.WithinSpace :=
    Nat.lt_of_le_of_lt (frontier_le_follow _ rest) hspace
  have hrun := hboth
  rw [follow_append] at hrun
  have hbefore := (follow_ages hstart (Nat.lt_of_le_of_lt (frontier_le_follow _ middle) hrun)).1
  obtain ⟨hmiddle, hages⟩ := follow_ages hbefore hrun
  rw [← follow_append] at hmiddle hages
  have hdead : .heap .collect ∈ middle → ∀ a, (Host.follow ⟨heap, []⟩ before).heap.isLive a = true →
      (Host.follow ⟨heap, []⟩ (before ++ middle)).heap.isLive a = false := by
    intro hcollect a ha
    rw [follow_append]
    exact isLive_follow_of_collect hbefore hrun hcollect ha
  constructor
  case aged =>
    rw [follow_append _ (before ++ middle)]
    exact aged_of_ages hbefore hmiddle hages (follow_ages hmiddle hspace).2
  case refused =>
    intro hcollect a ha
    exact ⟨hdead hcollect a ha, refuses_of_dead hmiddle (hbefore.ne_null_of_isLive ha) (hdead hcollect a ha)⟩
  case unknown =>
    intro hcollect a ha k table htable hspared
    have hempty : Recalls k ⟨heap, []⟩ := fun table htable => by simp [table?] at htable
    exact existingIndexOf_of_dead (hempty.follow hstart hboth hspared) htable (hbefore.ne_null_of_isLive ha)
      (hdead hcollect a ha)

/-- The address of an object is taken down, the object moves, and a new one is made. A table has known the old one all the time. -/
theorem elapsed_of_kept_address : ∃ start before middle rest, Elapsed start before middle rest ∧
    .heap .collect ∈ middle ∧ (start.follow before).heap.isLive ⟨0x1000⟩ = true ∧ Spares 0 start (before ++ middle) ∧
    (start.follow (before ++ middle)).handlesOf 0 = [⟨1⟩] := by
  have helapsed := elapsed_of_reached (@Heap.Reached.created 0 .default _ rfl)
    [.heap (.define ⟨"p/A", [], false⟩), .heap (.allocate 0), .createTable, .use 0 (.indexOf ⟨0x1000⟩ false)]
    [.heap .collect, .heap (.allocate 0), .use 0 (.existingIndexOf ⟨0x1000⟩)]
    [.heap (.release [⟨0⟩]), .dropTable 0] (by decide +kernel)
  exact ⟨_, _, _, _, helapsed, by decide, by decide +kernel, by decide +kernel, by decide +kernel⟩

end KnownObjects.Host
