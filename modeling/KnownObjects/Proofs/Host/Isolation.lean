import KnownObjects.Proofs.Host.Ownership
import KnownObjects.Proofs.Table.Rehandling

/-!
# Tables do not show in one another

The tables over a heap share its handles, and a handle that one of them gives back is handed out to another. So the numbers of a table's handles depend on what all the others do. Nothing else does: while mutators store and collect, whatever is asked of one table has the same answers as if there were no other tables, up to the numbers of its handles. Others may look up objects, end, and abort their compilations at any point in between.

The two runs are compared step by step. At each point the heaps differ in their handles only, the table has the same objects in its slots in both, and the run without the others needs no more handles than the one with them.
-/

namespace KnownObjects

namespace HandleTable

theorem le_size_insert (t : HandleTable) (a : Address) : t.slots.size ≤ (t.insert a).2.slots.size := by
  simp only [insert]
  split
  · simp
  · simp

/-- The row of slots grows only when all of them are in use. -/
theorem size_insert_le (t : HandleTable) (a : Address) :
    (t.insert a).2.slots.size ≤ max t.slots.size (t.live + 1) := by
  simp only [insert, live]
  split
  · simp
  · rename_i hfree
    simp [hfree]

theorem size_releaseAll (t : HandleTable) (handles : List Handle) :
    (t.releaseAll handles).2.slots.size = t.slots.size := by
  induction handles generalizing t with
  | nil => rfl
  | cons h rest ih =>
    refine (ih _).trans ?_
    simp only [release]
    split
    · simp
    · rfl

end HandleTable

namespace Host

/-! ### The two runs -/

/-- Whether an event is left when all other tables are taken away. -/
def Event.concerns (k : Nat) : Event → Bool
  | heap _ => true
  | createTable => false
  | use j _ => j == k
  | dropTable j => j == k
  | abort j _ _ => j == k

/-- What may happen while mutators own these handles and make no others. Where a table is asked about a location, it is one of theirs; other tables may be asked about any. -/
def Event.Settled (owned : List Handle) (k : Nat) : Event → Prop
  | heap operation => operation.Settled owned
  | use j operation => (∀ heapOperation, operation ≠ .heap heapOperation) ∧
      (j = k → ∀ l, operation.location? = some l → l.root ∈ owned)
  | _ => True

/-- What a table answers in the course of a run. -/
def answersAt (k : Nat) (s : Host) : List Event → List Answer
  | [] => []
  | .use j operation :: rest =>
    if j = k then (s.atTable k operation).1 :: answersAt k (s.after (.use j operation)) rest
    else answersAt k (s.after (.use j operation)) rest
  | e :: rest => answersAt k (s.after e) rest

/-- An answer without the numbers of handles. -/
def Answer.veil : Answer → Answer
  | .table result => .table (result.map Table.Answer.veil)
  | answer => answer

/-- Addresses, handles and slots stay within their words all the time. -/
def AffordsAll (s : Host) : List Event → Prop
  | [] => True
  | e :: rest => s.Affords e ∧ AffordsAll (s.after e) rest

instance decidableAffordsAll : (s : Host) → (script : List Event) → Decidable (s.AffordsAll script)
  | _, [] => isTrue trivial
  | s, e :: rest =>
    have := decidableAffordsAll (s.after e) rest
    inferInstanceAs (Decidable (_ ∧ _))

/-- With the others and without them: `s` is the host that they are at, and `t` the one where only one table holds handles. -/
structure Apart (owned : List Handle) (k : Nat) (s t : Host) : Prop where
  heap : s.heap.Rehandled owned t.heap
  table : Option.Rel (Table.Rehandled s.heap t.heap) (s.table? k) (t.table? k)
  placed : k < s.tables.length
  left : s.Shares owned
  right : t.Shares owned
  room : s.heap.handles.slots.size < 4294967295
  narrower : t.heap.handles.slots.size ≤ s.heap.handles.slots.size
  alone : t.lent.length = (t.handlesOf k).length

/-! ### Events of others -/

theorem mem_lent {s : Host} {k : Nat} {h : Handle} (hh : h ∈ s.handlesOf k) : h ∈ s.lent := by
  simp only [handlesOf] at hh
  cases htable : s.table? k with
  | none => simp [htable] at hh
  | some table =>
    rw [htable] at hh
    exact List.mem_flatMap.2 ⟨table, mem_present_of_table? htable, hh⟩

theorem Shares.exists_get? {s : Host} {owned : List Handle} (hs : s.Shares owned) {k : Nat} {h : Handle}
    (hh : h ∈ owned ++ s.handlesOf k) : ∃ a, s.heap.handles.get? h = some a := by
  apply (hs.holds.mem_iff h).1
  rw [List.mem_append] at hh ⊢
  exact hh.imp_right mem_lent

/-- What others do leaves objects where they are, and leaves the table and what its handles and those of mutators lead to. -/
structure Aside (owned : List Handle) (k : Nat) (s s' : Host) : Prop where
  heap : s'.heap = { s.heap with handles := s'.heap.handles }
  kept : ∀ h ∈ owned ++ s.handlesOf k, s'.heap.handles.get? h = s.heap.handles.get? h
  table : s'.table? k = s.table? k
  placed : k < s.tables.length → k < s'.tables.length
  wider : s.heap.handles.slots.size ≤ s'.heap.handles.slots.size

theorem Aside.refl (owned : List Handle) (k : Nat) (s : Host) : Aside owned k s s :=
  ⟨rfl, fun _ _ => rfl, rfl, id, Nat.le_refl _⟩

theorem createTable_aside (owned : List Handle) (k : Nat) (s : Host) (hk : k < s.tables.length) :
    Aside owned k s (s.after .createTable) where
  heap := rfl
  kept _ _ := rfl
  table := by
    show (s.tables ++ [some (.empty s.heap.id)])[k]?.join = s.tables[k]?.join
    rw [List.getElem?_append_left hk]
  placed _ := Nat.lt_of_lt_of_le hk (List.prefix_append _ _).length_le
  wider := Nat.le_refl _

theorem Shares.use_aside {s : Host} {owned : List Handle} (hs : s.Shares owned) {j k : Nat} (hne : j ≠ k)
    {operation : Site.Operation} (huse : ∀ heapOperation, operation ≠ .heap heapOperation) :
    Aside owned k s (s.after (.use j operation)) := by
  cases htable : s.table? j with
  | none =>
    rw [after_use_of_absent htable]
    exact .refl owned k s
  | some table =>
    have hbound : ∀ heap, heap = s.heap ∨ (∃ a, heap = s.heap.withHandle a) →
        Aside owned k s ⟨heap, s.tables.set j (some (operation.next ⟨s.heap, table⟩).table)⟩ := by
      intro heap hheap
      have hset := table?_set_ne hne heap s.tables (some (operation.next ⟨s.heap, table⟩).table)
      have hlength : k < s.tables.length → k < (s.tables.set j (some (operation.next ⟨s.heap, table⟩).table)).length := by
        rw [List.length_set]
        exact id
      rcases hheap with rfl | ⟨a, rfl⟩
      · exact ⟨rfl, fun _ _ => rfl, hset, hlength, Nat.le_refl _⟩
      · refine ⟨rfl, fun h hh => ?_, hset, hlength, HandleTable.le_size_insert _ a⟩
        obtain ⟨b, hb⟩ := hs.exists_get? hh
        exact (hs.heap.handles_valid.get?_insert_of_get? hb).trans hb.symm
    rw [after_use htable]
    apply hbound
    have hused := Site.used_perform huse ⟨s.heap, table⟩
    generalize ((Site.perform operation).run ⟨s.heap, table⟩).result = r at hused
    cases hused with
    | plain hheap => exact Or.inl hheap
    | learnt _ _ hheap | full _ _ hheap => exact Or.inr ⟨_, hheap⟩

/-- A table that ends gives back no handle of a mutator or of another table. -/
theorem Shares.dropTable_aside {s : Host} {owned : List Handle} (hs : s.Shares owned) {j k : Nat} (hne : j ≠ k) :
    Aside owned k s (s.after (.dropTable j)) := by
  cases htable : s.table? j with
  | none =>
    rw [after_dropTable_of_absent htable]
    exact .refl owned k s
  | some table =>
    obtain ⟨others, hholds, hleft⟩ := hs.exists_holds htable
    have hset := table?_set_ne hne (s.heap.release table.slots.handles).2 s.tables none
    rw [after_dropTable htable]
    refine ⟨rfl, fun h hh => ?_, hset, ?_, Nat.le_of_eq (HandleTable.size_releaseAll _ _).symm⟩
    · apply HandleTable.Valid.get?_releaseAll_of_not_mem
      intro hmem
      apply List.disjoint_of_nodup_append hholds.nodup hmem
      rw [List.mem_append] at hh ⊢
      refine hh.imp_right fun hh => (hleft (s.heap.release table.slots.handles).2).mem_iff.1 (mem_lent (k := k) ?_)
      simp only [handlesOf, hset]
      exact hh
    · rw [List.length_set]
      exact id

theorem Shares.aside {s : Host} {owned : List Handle} (hs : s.Shares owned) {k : Nat} (hk : k < s.tables.length)
    {e : Event} (hsettled : e.Settled owned k) (hother : e.concerns k = false) : Aside owned k s (s.after e) := by
  cases e with
  | heap operation => exact nomatch hother
  | createTable => exact createTable_aside owned k s hk
  | use j operation => exact hs.use_aside (by simpa [Event.concerns] using hother) hsettled.1
  | dropTable j => exact hs.dropTable_aside (by simpa [Event.concerns] using hother)
  | abort j id cause =>
    rw [after_abort]
    exact hs.dropTable_aside (by simpa [Event.concerns] using hother)

/-- Mutators get no handle and give none back. -/
theorem Event.owned_eq {s : Host} {owned : List Handle} {k : Nat} {e : Event} (hsettled : e.Settled owned k) :
    e.Fair owned ∧ e.owned s owned = owned := by
  cases e with
  | heap operation =>
    cases operation with
    | store holder field value =>
      refine ⟨trivial, ?_⟩
      simp only [Event.owned, Heap.perform]
      cases s.heap.store holder field value <;> rfl
    | collect => exact ⟨trivial, rfl⟩
    | define | allocate | newHandle | release => exact hsettled.elim
  | use j operation =>
    cases operation with
    | heap heapOperation => exact absurd rfl (hsettled.1 heapOperation)
    | table | indexOf | existingIndexOf | pointerOf | serve => exact ⟨trivial, rfl⟩
  | createTable | dropTable | abort => exact ⟨trivial, rfl⟩

theorem Shares.after_settled {s : Host} {owned : List Handle} (hs : s.Shares owned)
    (hroom : s.heap.handles.slots.size < 4294967295) {k : Nat} {e : Event} (hsettled : e.Settled owned k)
    (hafford : s.Affords e) : (s.after e).Shares owned := by
  obtain ⟨hfair, howned⟩ := Event.owned_eq (s := s) hsettled
  have hshares := hs.after (by omega) hfair hafford
  rwa [howned] at hshares

/-- Whatever becomes of the heaps, so long as the handles in slots lead to the same objects. -/
theorem rel_of_targets {g h g' h' : Heap} {x y : Option Table} (hxy : Option.Rel (Table.Rehandled g h) x y)
    (htargets : ∀ t u, x = some t → y = some u → ∀ n ∈ t.slots.handles, ∀ m ∈ u.slots.handles,
      g.SameTarget h n m → g'.SameTarget h' n m) : Option.Rel (Table.Rehandled g' h') x y := by
  cases hxy with
  | none => exact .none
  | some htu => exact .some (htu.of_targets (htargets _ _ rfl rfl))

namespace Apart

variable {owned : List Handle} {k : Nat} {s t : Host}

/-- An event of the others takes place in one of the runs only. -/
theorem other (h : Apart owned k s t) {e : Event} (hsettled : e.Settled owned k) (hafford : s.Affords e)
    (hother : e.concerns k = false) : Apart owned k (s.after e) t := by
  have haside := h.left.aside h.placed hsettled hother
  have hshares := h.left.after_settled h.room hsettled hafford
  have hleft : ∀ n ∈ owned, (s.after e).heap.handles.get? n = s.heap.handles.get? n :=
    fun n hn => haside.kept n (List.mem_append_left _ hn)
  have hformed := hshares.heap
  rw [haside.heap] at hformed
  refine ⟨?_, ?_, haside.placed h.placed, hshares, h.right, hafford.handles,
    Nat.le_trans h.narrower haside.wider, h.alone⟩
  · rw [haside.heap]
    exact h.heap.rehandle (u := t.heap.handles) hformed h.right.heap hleft fun _ _ => rfl
  · rw [haside.table]
    refine rel_of_targets h.table fun table _ htable _ n hn m _ htarget => ?_
    refine htarget.of_resolve_eq (Heap.resolve_congr (haside.kept n (List.mem_append_right _ ?_))) rfl
    simp only [handlesOf, htable]
    exact hn

/-! ### Events that both runs have -/

theorem onHeap (h : Apart owned k s t) {operation : Heap.Operation} (hsettled : operation.Settled owned)
    (hafford : s.Affords (.heap operation)) :
    Apart owned k (s.after (.heap operation)) (t.after (.heap operation)) := by
  obtain ⟨hheap, htargets⟩ := h.heap.perform hsettled hafford.space
  have hevent : (Event.heap operation).Settled owned k := hsettled
  have hright : t.Affords (.heap operation) := by
    refine ⟨?_, ?_, rfl⟩
    · show (t.heap.perform operation).2.WithinSpace
      rw [hheap.same]
      exact hafford.space
    · show (t.heap.perform operation).2.handles.slots.size < 4294967295
      rw [Heap.size_perform t.heap hsettled]
      exact Nat.lt_of_le_of_lt h.narrower h.room
  refine ⟨hheap, rel_of_targets h.table fun _ _ _ _ n _ m _ => htargets n m, h.placed,
    h.left.after_settled h.room hevent hafford, h.right.after_settled (Nat.lt_of_le_of_lt h.narrower h.room) hevent hright,
    hafford.handles, ?_, h.alone⟩
  show (t.heap.perform operation).2.handles.slots.size ≤ (s.heap.perform operation).2.handles.slots.size
  rw [Heap.size_perform t.heap hsettled, Heap.size_perform s.heap hsettled]
  exact h.narrower

end Apart

theorem table?_set {s : Host} {k : Nat} (hk : k < s.tables.length) (heap : Heap) (entry : Option Table) :
    Host.table? ⟨heap, s.tables.set k entry⟩ k = entry := by
  simp only [table?]
  rw [List.getElem?_set_self hk]
  rfl

theorem lt_of_table? {s : Host} {k : Nat} {table : Table} (htable : s.table? k = some table) : k < s.tables.length :=
  (List.getElem?_eq_some_iff.1 (Option.join_eq_some_iff.1 htable)).1

/-- Where only one table holds handles, only it does after it has changed or ended. -/
theorem length_lent_set {s : Host} {k : Nat} {table : Table} (htable : s.table? k = some table)
    (halone : s.lent.length = (s.handlesOf k).length) (heap : Heap) (entry : Option Table) :
    (Host.lent ⟨heap, s.tables.set k entry⟩).length = (handlesOf ⟨heap, s.tables.set k entry⟩ k).length := by
  obtain ⟨others, hlent, hgone, hchanged⟩ := exists_lent_perm htable
  have hnone : others.length = 0 := by
    have hlength := hlent.length_eq
    rw [halone, List.length_append] at hlength
    simp only [handlesOf, htable, Option.map_some, Option.getD_some] at hlength
    omega
  simp only [handlesOf, table?_set (lt_of_table? htable)]
  cases entry with
  | none => exact (hgone heap).length_eq.trans hnone
  | some other =>
    rw [(hchanged heap other).length_eq, List.length_append, hnone]
    rfl

/-- A use of a table makes the row of handles longer only if all of them are in use. -/
theorem Shares.size_use {s : Host} {owned : List Handle} (hs : s.Shares owned) (k : Nat) {operation : Site.Operation}
    (huse : ∀ heapOperation, operation ≠ .heap heapOperation) :
    s.heap.handles.slots.size ≤ (s.after (.use k operation)).heap.handles.slots.size ∧
      (s.after (.use k operation)).heap.handles.slots.size ≤
        max s.heap.handles.slots.size (s.after (.use k operation)).heap.handles.live := by
  cases htable : s.table? k with
  | none =>
    rw [after_use_of_absent htable]
    omega
  | some table =>
    have hbound : ∀ a, (s.heap.withHandle a).handles.slots.size ≤
        max s.heap.handles.slots.size (s.heap.withHandle a).handles.live := by
      intro a
      have hlive : (s.heap.withHandle a).handles.live = s.heap.handles.live + 1 :=
        hs.heap.handles_valid.live_insert a
      rw [hlive]
      exact HandleTable.size_insert_le _ a
    rw [after_use htable]
    have hused := Site.used_perform huse ⟨s.heap, table⟩
    generalize ((Site.perform operation).run ⟨s.heap, table⟩).result = r at hused
    cases hused with
    | plain hheap =>
      simp only [hheap]
      omega
    | @learnt _ _ a _ _ _ hheap | @full _ a _ _ hheap =>
      simp only [hheap]
      exact ⟨HandleTable.le_size_insert _ a, hbound a⟩

namespace Apart

variable {owned : List Handle} {k : Nat} {s t : Host}

/-- The table is there in both runs or in neither. -/
theorem table_cases (h : Apart owned k s t) : (s.table? k = none ∧ t.table? k = none) ∨
    ∃ table other, s.table? k = some table ∧ t.table? k = some other ∧ table.Rehandled s.heap t.heap other := by
  have htable := h.table
  generalize s.table? k = x at htable
  generalize t.table? k = y at htable
  cases htable with
  | none => exact Or.inl ⟨rfl, rfl⟩
  | some htu => exact Or.inr ⟨_, _, rfl, rfl, htu⟩

/-- The run without the others needs no more handles than the one with them. -/
theorem size_le {s' t' : Host} (hleft : s'.Shares owned) (hright : t'.Shares owned)
    (halone : t'.lent.length = (t'.handlesOf k).length) (hsame : (t'.handlesOf k).length = (s'.handlesOf k).length) :
    t'.heap.handles.live ≤ s'.heap.handles.slots.size := by
  have hsubset : (s'.handlesOf k).length ≤ s'.lent.length := by
    simp only [handlesOf]
    cases htable : s'.table? k with
    | none => exact Nat.zero_le _
    | some table =>
      obtain ⟨others, hlent, -⟩ := exists_lent_perm htable
      rw [hlent.length_eq, List.length_append]
      exact Nat.le_add_right _ _
  have hlive : s'.heap.handles.live ≤ s'.heap.handles.slots.size := Nat.sub_le _ _
  rw [hleft.holds.live, List.length_append] at hlive
  rw [hright.holds.live, List.length_append]
  omega

/-- The use of a table has one answer in both runs, and they are as alike afterwards as before. -/
theorem use (h : Apart owned k s t) {operation : Site.Operation} (hsettled : (Event.use k operation).Settled owned k)
    (hafford : s.Affords (.use k operation)) :
    (t.atTable k operation).1.veil = (s.atTable k operation).1.veil ∧
      Apart owned k (s.after (.use k operation)) (t.after (.use k operation)) := by
  obtain ⟨huse, hlocation⟩ := hsettled
  have hlocation := hlocation rfl
  have hroom := h.room
  have hnarrower := h.narrower
  rcases h.table_cases with ⟨hs, ht⟩ | ⟨table, other, hs, ht, htu⟩
  · rw [after_use_of_absent hs, after_use_of_absent ht]
    simp only [atTable, hs, ht]
    exact ⟨trivial, h⟩
  · have hsites : Site.Spacious owned ⟨s.heap, table⟩ ⟨t.heap, other⟩ := by
      refine ⟨⟨h.heap, htu⟩, ?_, ?_⟩
      · show s.heap.handles.slots.size < 4294967296
        omega
      · show t.heap.handles.slots.size < 4294967296
        omega
    obtain ⟨hresult, hheap, htable⟩ := Site.Spacious.perform huse hlocation _ _ hsites
    have hslots : (Event.use k operation).exhausts t = false := by
      have hindex : other.endIndex = table.endIndex := htu.size_eq
      rw [← hafford.slots]
      simp only [Event.exhausts, atTable, hs, ht]
      rcases hresult.ok_or_error with ⟨x, y, hx, hy, -⟩ | ⟨e, _, hx, hy, rfl⟩
      · rw [hx, hy]
      · rw [hx, hy]
        cases e <;> simp only [hindex]
    have hleft := h.left.use (by omega) hs huse hafford.slots
    have hright := h.right.use (by omega) ht huse hslots
    have hwider := h.left.size_use k huse
    have hgrown := h.right.size_use k huse
    refine ⟨?_, ?_⟩
    · simp only [atTable, hs, ht, Answer.veil]
      rcases hresult.ok_or_error with ⟨x, y, hx, hy, hxy⟩ | ⟨e, _, hx, hy, rfl⟩
      · rw [hx, hy, Except.map, Except.map, hxy]
      · rw [hx, hy]
    · have hatS : (s.after (.use k operation)).table? k = some (operation.next ⟨s.heap, table⟩).table := by
        rw [after_use hs]
        exact table?_set h.placed _ _
      have hatT : (t.after (.use k operation)).table? k = some (operation.next ⟨t.heap, other⟩).table := by
        rw [after_use ht]
        exact table?_set (lt_of_table? ht) _ _
      have halone : (t.after (.use k operation)).lent.length = ((t.after (.use k operation)).handlesOf k).length := by
        rw [after_use ht]
        exact length_lent_set ht h.alone _ _
      have hlengths : ((t.after (.use k operation)).handlesOf k).length =
          ((s.after (.use k operation)).handlesOf k).length := by
        simp only [handlesOf, hatS, hatT, Option.map_some, Option.getD_some]
        exact htable.slots.length_eq.symm
      have hneeded := size_le hleft hright halone hlengths
      refine ⟨?_, ?_, ?_, hleft, hright, hafford.handles, by omega, halone⟩
      · rw [after_use hs, after_use ht]
        exact hheap
      · rw [hatS, hatT, after_use hs, after_use ht]
        exact .some htable
      · rw [after_use hs, List.length_set]
        exact h.placed

/-- The end of the table gives back its handles, which are no mutator's. -/
theorem drop (h : Apart owned k s t) :
    Apart owned k (s.after (.dropTable k)) (t.after (.dropTable k)) := by
  rcases h.table_cases with ⟨hs, ht⟩ | ⟨table, other, hs, ht, -⟩
  · rw [after_dropTable_of_absent hs, after_dropTable_of_absent ht]
    exact h
  · have hleft := h.left.dropTable k
    have hright := h.right.dropTable k
    have hdisjoint : ∀ {x : Host} {gone : Table}, x.Shares owned → x.table? k = some gone →
        ∀ n ∈ owned, (x.heap.handles.releaseAll gone.slots.handles).2.get? n = x.heap.handles.get? n := by
      intro x gone hx hgone n hn
      obtain ⟨others, hholds, -⟩ := hx.exists_holds hgone
      apply HandleTable.Valid.get?_releaseAll_of_not_mem
      exact fun hmem => List.disjoint_of_nodup_append hholds.nodup hmem (List.mem_append_left _ hn)
    rw [after_dropTable hs] at hleft ⊢
    rw [after_dropTable ht] at hright ⊢
    refine ⟨?_, ?_, ?_, hleft, hright, ?_, ?_, length_lent_set ht h.alone _ none⟩
    · exact h.heap.rehandle hleft.heap hright.heap (hdisjoint h.left hs) (hdisjoint h.right ht)
    · rw [table?_set h.placed, table?_set (lt_of_table? ht)]
      exact .none
    · rw [List.length_set]
      exact h.placed
    · show (s.heap.handles.releaseAll table.slots.handles).2.slots.size < 4294967295
      rw [HandleTable.size_releaseAll]
      exact h.room
    · show (t.heap.handles.releaseAll other.slots.handles).2.slots.size ≤
        (s.heap.handles.releaseAll table.slots.handles).2.slots.size
      rw [HandleTable.size_releaseAll, HandleTable.size_releaseAll]
      exact h.narrower

end Apart

/-! ### Whole runs -/

theorem answersAt_of_other {k : Nat} {s : Host} {e : Event} (hother : e.concerns k = false) (rest : List Event) :
    answersAt k s (e :: rest) = answersAt k (s.after e) rest := by
  cases e with
  | use j operation =>
    simp only [answersAt]
    rw [if_neg (by simpa [Event.concerns] using hother)]
  | heap | createTable | dropTable | abort => rfl

/-- The answers of one table in two runs, one of which is without the events of all others. -/
theorem Apart.answersAt_eq {owned : List Handle} {k : Nat} {s t : Host} (h : Apart owned k s t) {script : List Event}
    (hsettled : ∀ e ∈ script, e.Settled owned k) (hafford : s.AffordsAll script) :
    (answersAt k s script).map Answer.veil = (answersAt k t (script.filter (Event.concerns k))).map Answer.veil := by
  induction script generalizing s t with
  | nil => rfl
  | cons e rest ih =>
    obtain ⟨hnow, hlater⟩ := hafford
    have hevent := hsettled e List.mem_cons_self
    have hrest := fun e he => hsettled e (List.mem_cons_of_mem _ he)
    cases hconcerns : e.concerns k with
    | false =>
      rw [List.filter_cons_of_neg (by simp [hconcerns]), answersAt_of_other hconcerns]
      exact ih (h.other hevent hnow hconcerns) hrest hlater
    | true =>
      rw [List.filter_cons_of_pos hconcerns]
      cases e with
      | heap operation => exact ih (h.onHeap hevent hnow) hrest hlater
      | createTable => exact nomatch hconcerns
      | use j operation =>
        obtain rfl : j = k := by simpa [Event.concerns] using hconcerns
        obtain ⟨hanswer, hafter⟩ := h.use hevent hnow
        simp only [answersAt, if_true, List.map_cons]
        rw [hanswer, ih hafter hrest hlater]
      | dropTable j =>
        obtain rfl : j = k := by simpa [Event.concerns] using hconcerns
        exact ih h.drop hrest hlater
      | abort j id cause =>
        obtain rfl : j = k := by simpa [Event.concerns] using hconcerns
        simp only [answersAt, after_abort] at hlater ⊢
        exact ih h.drop hrest hlater

/-- A host is apart from itself while no other table holds a handle. -/
theorem Shares.apart {s : Host} {owned : List Handle} (hs : s.Shares owned) (hroom : s.heap.handles.slots.size < 4294967295)
    {k : Nat} {table : Table} (htable : s.table? k = some table) (halone : s.lent = s.handlesOf k) :
    Apart owned k s s := by
  have hlive : ∀ n ∈ owned ++ s.handlesOf k, s.heap.SameTarget s.heap n n := by
    intro n hn
    obtain ⟨a, ha⟩ := hs.exists_get? hn
    exact .refl (Heap.resolve_eq_ok_iff.2 ha)
  refine ⟨⟨rfl, fun n hn => hlive n (List.mem_append_left _ hn), hs.heap, hs.heap⟩, ?_, lt_of_table? htable, hs, hs, hroom,
    Nat.le_refl _, congrArg List.length halone⟩
  rw [htable]
  refine .some ⟨rfl, rfl, List.forall₂_same.2 fun n hn => hlive n (List.mem_append_right _ ?_)⟩
  simp only [handlesOf, htable]
  exact hn

/-- Whatever other tables do, one table answers as if they were not there, up to the numbers of its handles. -/
theorem undisturbed_of_reachedOwning {s : Host} {owned : List Handle} (h : s.ReachedOwning owned) {k : Nat} {table : Table}
    (htable : s.table? k = some table) (halone : s.lent = s.handlesOf k) {script : List Event}
    (hsettled : ∀ e ∈ script, e.Settled owned k) (hafford : s.AffordsAll script) :
    (answersAt k s script).map Answer.veil = (answersAt k s (script.filter (Event.concerns k))).map Answer.veil :=
  (h.shares.1.apart h.shares.2 htable halone).answersAt_eq hsettled hafford

/-- Another table meets an object first and its compilation aborts. The handle that it gives back is then given to the table, which would have got another one without it. -/
theorem undisturbed_by_aborted_compilation : ∃ (s : Host) (owned : List Handle) (script : List Event),
    s.ReachedOwning owned ∧ (∀ e ∈ script, e.Settled owned 0) ∧ s.AffordsAll script ∧
      (answersAt 0 s script).map Answer.veil = (answersAt 0 s (script.filter (Event.concerns 0))).map Answer.veil := by
  have hstart := ReachedOwning.start (@rfl _ (Heap.create 0 .default))
  have hdefined := hstart.event (.heap (.define ⟨"p/Node", [.ofSignature "next" "Lp/Node;"], false⟩)) trivial (by decide +kernel)
  have hfirst := hdefined.event (.heap (.allocate 0)) trivial (by decide +kernel)
  have hsecond := hfirst.event (.heap (.allocate 0)) trivial (by decide +kernel)
  have hmade := hsecond.event .createTable trivial (by decide +kernel)
  let script : List Event := [
    .createTable, .use 1 (.table (.indexAt (.handle ⟨1⟩) false)), .use 0 (.table (.indexAt (.handle ⟨0⟩) true)),
    .heap (.store ⟨0⟩ "next" (.ref ⟨1⟩)), .abort 1 7 .tableFull, .use 0 (.serve (.getIndexAt (.field ⟨0⟩ 0))),
    .heap .collect, .use 0 (.table (.slot (.ofNat 2))), .use 1 (.pointerOf (.ofNat 1)), .use 0 (.pointerOf (.ofNat 2)),
    .use 0 (.table (.existingIndexAt (.field ⟨1⟩ 0))), .use 0 (.pointerOf (.ofNat 3)), .dropTable 0]
  have hsettled : ∀ e ∈ script, e.Settled [⟨1⟩, ⟨0⟩] 0 := by
    simp [script, Event.Settled, Heap.Operation.Settled, Site.Operation.location?, Location.root, NewValue.handle?]
  refine ⟨_, _, script, hmade, hsettled, ?afford, undisturbed_of_reachedOwning hmade rfl rfl hsettled ?afford⟩
  decide +kernel

end Host

end KnownObjects
