import KnownObjects.Proofs.Dump.Promotion
import KnownObjects.Session.Run

/-!
# A dump always completes

Printing a table into a string never gives up, in whatever state the handles of the table are. The listing goes on to the lowest index whose handle leads nowhere and ends there with a notice; the rows above are whole, and nothing is printed after it. If there is no such index, then all handles have been seen to lead to objects when the listing is closed, and that is all that the graph needs: `Site.Readable` says that every read it can make succeeds.

`Site.Dumped` lists the texts that come about in this way, all of them spelled out. What a whole forest is, is said by `Site.Accounts`, and how its lines read by `Site.Reads`.
-/

namespace KnownObjects

open Dump

namespace Dump

/-! ### Rows -/

/-- The rows go on to the end, or to the first one that cannot be made. -/
theorem rows_cases (heap : Heap) (entries : List (Index × Handle)) :
    (∃ made, rows heap entries = (made, none) ∧
      List.Forall₂ (fun entry r => row heap entry.1 entry.2 = .ok r) entries made) ∨
    ∃ before i h after made e, entries = before ++ (i, h) :: after ∧ rows heap entries = (made, some e) ∧
      List.Forall₂ (fun entry r => row heap entry.1 entry.2 = .ok r) before made ∧ row heap i h = .error e := by
  induction entries with
  | nil => exact Or.inl ⟨[], rfl, .nil⟩
  | cons entry entries ih =>
    obtain ⟨i, h⟩ := entry
    simp only [rows]
    cases hrow : row heap i h with
    | error e => exact Or.inr ⟨[], i, h, entries, [], e, rfl, rfl, .nil, hrow⟩
    | ok r =>
      rcases ih with ⟨made, hrows, hmade⟩ | ⟨before, j, g, after, made, e, rfl, hrows, hmade, herror⟩
      · exact Or.inl ⟨r :: made, by rw [hrows], .cons hrow hmade⟩
      · exact Or.inr ⟨(i, h) :: before, j, g, after, r :: made, e, rfl, by rw [hrows], .cons hrow hmade, herror⟩

end Dump

namespace Site

/-! ### What is printed -/

/-- The row of an index: that of null, or that of the object to which the handle in its slot leads. -/
inductive RowReads (s : Site) : Index → String → Prop
  | null : RowReads s .null "  obj0                                          NULL\n"
  | object {i : Index} {h : Handle} {o : Object} : s.table.slots.get? i = some (.ref h) → s.heap.LeadsTo h o →
    RowReads s i (rowSpelling i h o)

/-- The beginning of a dump, with whole rows for the indices below `count`. -/
def Opens (s : Site) (count : Nat) (text : String) : Prop :=
  ∃ rows, List.Forall₂ s.RowReads ((List.range count).map Index.ofNat) rows ∧
    text = "<knownObjectTable size=\"" ++ toString (s.table.slots.handles.length + 1) ++ "\">\n" ++
      "  id       Handle     Address        Hash       Class\n" ++ String.join rows

/-- Every read that a graph can need succeeds: of the object behind a handle, of a field that its class declares, and of the index of what a value refers to. -/
structure Readable (s : Site) : Prop where
  resolved : ∀ h ∈ s.table.slots.handles, ∃ o, s.heap.LeadsTo h o
  fields : ∀ h ∈ s.table.slots.handles, ∀ o, s.heap.LeadsTo h o → ∀ slot : UInt64,
    slot.toNat < o.classInfo.fields.length → ∃ v, s.heap.fieldAt o.address slot = .ok v
  targets : ∀ v, ∃ found, target? s.heap s.table v = .ok found

/-- What the dump of a table prints. The flag says whether the heap is held by someone else. -/
inductive Dumped (s : Site) (options : DumpOptions) : Bool → String → Prop
  | held : Dumped s options true ("<knownObjectTable size=\"" ++ toString (s.table.slots.handles.length + 1) ++
      "\"/> // unable to acquire heap access to print table contents\n")
  /-- The first handle that leads nowhere cuts the listing in front of its row. -/
  | cut {k : Index} {h : Handle} {text : String} : s.table.slots.get? k = some (.ref h) →
    s.heap.resolve h = .error (.invalidHandle h) → s.Opens k.toNat text →
    Dumped s options false
      (text ++ ("// known object dump incomplete: handle h#" ++ toString h.toNat ++ " does not exist\n"))
  | listed {text : String} : options.graph = false → s.Opens s.table.endIndex.toNat text →
    Dumped s options false (text ++ "</knownObjectTable>\n")
  | graphed {text : String} {lines : List Line} {texts : List String} : options.graph = true →
    s.Opens s.table.endIndex.toNat text → s.Readable → s.Accounts options.mutableFields lines →
    List.Forall₂ s.Reads lines texts →
    Dumped s options false (text ++ ("</knownObjectTable>\n<knownObjectGraph>\n" ++ String.join texts ++
      "</knownObjectGraph>\n"))

variable {s : Site} {objects : List Object}

theorem endIndex_spelling (hfits : s.table.slots.Fits) :
    s.table.endIndex.spelling = toString (s.table.slots.handles.length + 1) := by
  have hsize : s.table.endIndex.toNat = s.table.slots.handles.length + 1 := hfits.toNat_size
  unfold SlotStore.Fits at hfits
  rw [Index.spelling, hsize, if_neg (by omega)]

theorem row_eq_ok {heap : Heap} (hheap : heap.WellFormed) {i : Index} {h : Handle} {r : Row}
    (hrow : row heap i h = .ok r) : ∃ o, heap.LeadsTo h o ∧ r = .object i h o.address o.hash o.classInfo.name := by
  obtain ⟨a, ha, hrest⟩ := Except.bind_eq_ok_iff.1 hrow
  obtain ⟨o, ho, hr⟩ := Except.bind_eq_ok_iff.1 hrest
  obtain ⟨-, rfl⟩ := hheap.object_eq_ok_iff.1 ho
  exact ⟨o, ⟨ha, ho⟩, (Except.ok.inj hr).symm⟩

/-- The only thing that can be wrong with a row is its handle. -/
theorem row_eq_error {heap : Heap} (hheap : heap.WellFormed) {i : Index} {h : Handle} {e : HeapError}
    (hrow : row heap i h = .error e) : heap.resolve h = .error (.invalidHandle h) ∧ e = .invalidHandle h := by
  cases hresolve : heap.resolve h with
  | ok a =>
    obtain ⟨o, hleads⟩ := hheap.exists_leadsTo hresolve
    simp only [row] at hrow
    simp only [hleads.1, hleads.2, bind, Except.bind] at hrow
    exact nomatch hrow
  | error d =>
    simp only [row] at hrow
    rw [hresolve] at hrow
    obtain rfl : d = e := Except.error.inj hrow
    unfold Heap.resolve at hresolve
    split at hresolve
    · exact nomatch hresolve
    · rw [← Except.error.inj hresolve]
      exact ⟨rfl, rfl⟩

theorem getElem?_refs (slots : SlotStore) (k : Nat) :
    slots.refs[k]? = slots.handles[k]?.map fun h => (Index.ofNat (1 + k), h) := by
  simp only [SlotStore.refs]
  rw [List.getElem?_map, List.getElem?_zipIdx, Option.map_map]
  rfl

/-- The place of an entry among the slots is told by what stands in front of it. -/
theorem place_of_refs_eq {slots : SlotStore} (hfits : slots.Fits) {before after : List (Index × Handle)} {k : Index}
    {h : Handle} (hsplit : slots.refs = before ++ (k, h) :: after) : slots.get? k = some (.ref h) ∧
      before.length < slots.handles.length ∧ k.toNat = before.length + 1 := by
  have hplace : slots.refs[before.length]? = some (k, h) := by
    rw [hsplit, List.getElem?_append_right (Nat.le_refl _), Nat.sub_self]
    rfl
  refine ⟨hfits.mem_refs_iff.1 (List.mem_of_getElem? hplace), ?_⟩
  rw [getElem?_refs, Option.map_eq_some_iff] at hplace
  obtain ⟨g, hg, hentry⟩ := hplace
  obtain ⟨rfl, -⟩ := Prod.mk.inj hentry
  obtain ⟨hlength, -⟩ := List.getElem?_eq_some_iff.1 hg
  have hroom : slots.handles.length + 1 < 4294967295 := hfits
  exact ⟨hlength, by rw [Nat.add_comm, Index.toNat_ofNat (by omega)]⟩

theorem map_fst_take_refs {slots : SlotStore} {count : Nat} (hcount : count ≤ slots.handles.length) :
    Index.null :: (slots.refs.take count).map Prod.fst = (List.range (count + 1)).map Index.ofNat := by
  have hplaces : slots.refs.map Prod.fst = ((slots.handles.zipIdx 1).map Prod.snd).map Index.ofNat := by
    simp only [SlotStore.refs]
    rw [List.map_map, List.map_map]
    rfl
  rw [List.map_take, hplaces, List.zipIdx_map_snd, ← List.map_take, List.take_range'_of_length_ge hcount,
    List.range_eq_range', List.range'_succ]
  rfl

/-- Rows that were made one after the other from the first slot on are those of the lowest indices. -/
theorem opens_of_made (hheap : s.heap.WellFormed) (hfits : s.table.slots.Fits) {count : Nat}
    (hcount : count ≤ s.table.slots.handles.length) {made : List Row}
    (hmade : List.Forall₂ (fun entry r => row s.heap entry.1 entry.2 = .ok r) (s.table.slots.refs.take count) made) :
    s.Opens (count + 1) ("<knownObjectTable size=\"" ++ s.table.endIndex.spelling ++ "\">\n" ++
      "  id       Handle     Address        Hash       Class\n" ++ String.join ((Row.null :: made).map Row.text)) := by
  refine ⟨(Row.null :: made).map Row.text, ?_, by rw [endIndex_spelling hfits]⟩
  rw [← map_fst_take_refs hcount, List.map_cons, text_null]
  refine .cons .null (List.forall₂_map_left_iff.2 (List.forall₂_map_right_iff.2 ?_))
  have hslots : ∀ entry ∈ s.table.slots.refs.take count, s.table.slots.get? entry.1 = some (.ref entry.2) :=
    fun entry hentry => hfits.mem_refs_iff.1 (List.mem_of_mem_take hentry)
  refine ((List.forall₂_and_left _ _).2 ⟨hslots, hmade⟩).imp fun entry r h => ?_
  obtain ⟨hget, hrow⟩ := h
  obtain ⟨o, hleads, rfl⟩ := row_eq_ok hheap hrow
  rw [text_object_eq_spelling]
  exact .object hget hleads

/-- If every slot has a row, every handle leads to an object. -/
theorem intact_of_made {made : List Row}
    (hmade : List.Forall₂ (fun entry r => row s.heap entry.1 entry.2 = .ok r) s.table.slots.refs made) : s.Intact := by
  have hresolved : ∀ entry ∈ s.table.slots.refs, ∃ a, s.heap.resolve entry.2 = .ok a := by
    refine ((List.forall₂_and_left (R := fun _ _ => True) _ _).1 (hmade.imp fun entry r hrow => ⟨?_, trivial⟩)).1
    obtain ⟨a, ha, -⟩ := Except.bind_eq_ok_iff.1 hrow
    exact ⟨a, ha⟩
  intro h hh
  obtain ⟨k, hk⟩ := List.mem_iff_getElem?.1 hh
  exact hresolved _ (List.mem_of_getElem? (by rw [getElem?_refs, hk]; rfl))

namespace Shows

theorem readable (hs : s.Shows objects) (hheap : s.heap.WellFormed) : s.Readable where
  resolved h hh := by
    obtain ⟨k, hk, rfl⟩ := List.getElem_of_mem hh
    obtain ⟨hlength, hbehind⟩ := List.forall₂_iff_get.1 hs.behind
    exact ⟨_, hbehind k hk (hlength ▸ hk)⟩
  fields h hh o hleads slot hslot := by
    have ho := (hheap.object_eq_ok_iff.1 hleads.2).1
    have hvalue : slot.toNat < o.values.length := by rwa [hheap.shaped o ho]
    refine ⟨o.values[slot.toNat], ?_⟩
    simp only [Heap.fieldAt]
    simp only [hleads.2, bind, Except.bind, List.getElem?_eq_getElem hvalue]
  targets v := ⟨_, hs.target?_eq v⟩

/-- The document of a table all of whose handles lead to objects. -/
theorem read_eq (hs : s.Shows objects) {made : List Row} (hrows : rows s.heap s.table.slots.refs = (made, none))
    (options : DumpOptions) : Dump.read s.table options (some s.heap) = .listing s.table.endIndex (.null :: made)
      (if options.graph then
        .forest ((graphOf objects).marked s.table.endIndex).size s.table.slots.handles.length
          ((graphOf objects).forest options.mutableFields s.table.endIndex)
      else .listingOnly) := by
  simp only [Dump.read, hrows, hs.readForest_eq]

end Shows

theorem dumped_of_heap (hheap : s.heap.WellFormed) (hfits : s.table.slots.Fits) (options : DumpOptions) :
    s.Dumped options false ((Dump.read s.table options (some s.heap)).print none).text := by
  have hlength : s.table.slots.refs.length = s.table.slots.handles.length := by simp [SlotStore.refs]
  rcases rows_cases s.heap s.table.slots.refs with
    ⟨made, hrows, hmade⟩ | ⟨before, k, h, after, made, e, hsplit, hrows, hmade, herror⟩
  · have hall : List.Forall₂ (fun entry r => row s.heap entry.1 entry.2 = .ok r)
        (s.table.slots.refs.take s.table.slots.handles.length) made := by rwa [← hlength, List.take_length]
    have hopens := opens_of_made hheap hfits (Nat.le_refl _) hall
    rw [← hfits.toNat_size] at hopens
    obtain ⟨objects, hs⟩ := hheap.exists_shows hfits (intact_of_made hmade)
    rw [hs.read_eq hrows, text_listing]
    cases hgraph : options.graph with
    | false =>
      rw [if_neg (by simp), text_listingOnly]
      exact .listed hgraph hopens
    | true =>
      rw [if_pos rfl, text_forest]
      exact .graphed hgraph hopens (hs.readable hheap) (hs.accounts_forest options.mutableFields)
        (hs.reads_forest options.mutableFields)
  · obtain ⟨hresolve, rfl⟩ := row_eq_error hheap herror
    obtain ⟨hget, hbefore, hk⟩ := place_of_refs_eq hfits hsplit
    have hall : List.Forall₂ (fun entry r => row s.heap entry.1 entry.2 = .ok r)
        (s.table.slots.refs.take before.length) made := by rwa [hsplit, List.take_left]
    have hopens := opens_of_made hheap hfits (Nat.le_of_lt hbefore) hall
    rw [← hk] at hopens
    simp only [Dump.read, hrows]
    rw [text_listing, text_cut]
    exact .cut hget hresolve hopens

theorem dumped_of_held (hfits : s.table.slots.Fits) (options : DumpOptions) :
    s.Dumped options true ((Dump.read s.table options none).print none).text := by
  simp only [Dump.read]
  rw [text_held, endIndex_spelling hfits]
  exact .held

end Site

/-! ### Dumps in a session -/

namespace Session

theorem printEntry_ends (held : Option HeapId) (e : Entry) (p : Printing) (s : Session) :
    (printEntry held e p).Ends s (.ok (s.dumpOf held e p)) s :=
  (Action.get_ends s).bind (Action.Ends.bind (⟨rfl, rfl⟩ : Action.Ends (.noteAll _) s (.ok ()) s) (Action.pure_ends _ s))

/-- Whatever has become of its handles, a table that can read a heap is dumped without an error, whole or cut at a row. -/
theorem exists_dumped {s : Session} {table : Table} {heap : Heap} (hheap : s.heaps[table.heapId]? = some heap)
    (hwell : heap.WellFormed) (hfits : table.slots.Fits) (serves : Bool) (held : Option HeapId) (options : DumpOptions) :
    ∃ printed, (printEntry held (.direct serves table) ⟨options, none⟩).Ends s (.ok printed) s ∧ printed.failed = false ∧
      Site.Dumped ⟨heap, table⟩ options (decide (held = some table.heapId)) printed.text := by
  refine ⟨_, printEntry_ends held _ _ s, (printAll_eq _).2, ?_⟩
  simp only [dumpOf]
  by_cases hheld : held = some table.heapId
  · rw [if_pos hheld, decide_eq_true hheld]
    exact Site.dumped_of_held (s := ⟨heap, table⟩) hfits options
  · rw [if_neg hheld, hheap, decide_eq_false hheld]
    exact Site.dumped_of_heap (s := ⟨heap, table⟩) hwell hfits options

/-- Of the two handles of a table one leads to an object of someone else, and the other nowhere. -/
theorem exists_dumped_of_released : ∃ (s : Session) (table : Table) (heap : Heap),
    s.heaps[table.heapId]? = some heap ∧ heap.WellFormed ∧ table.slots.Fits ∧ table.slots.handles = [⟨3⟩, ⟨4⟩] ∧
    heap.resolve ⟨3⟩ = heap.resolve ⟨2⟩ ∧ heap.resolve ⟨4⟩ = .error (.invalidHandle ⟨4⟩) ∧
    ∃ printed, (printEntry none (.direct false table) ⟨⟨true, false⟩, none⟩).Ends s (.ok printed) s ∧
      printed.failed = false ∧ Site.Dumped ⟨heap, table⟩ ⟨true, false⟩ false printed.text := by
  have hstart := Site.Reached.start (@Heap.Reached.created 0 .default _ rfl)
  have hnode := hstart.performed (.heap (.define ⟨"p/Node", [(Field.ofSignature "next" "Lp/Node;").immutable], false⟩))
    (by decide)
  have hfirst := hnode.performed (.heap (.allocate 0)) (by decide +kernel)
  have hsecond := hfirst.performed (.heap (.allocate 0)) (by decide +kernel)
  have hthird := hsecond.performed (.heap (.allocate 0)) (by decide +kernel)
  have hone := hthird.performed (.table (.indexAt (.handle ⟨0⟩) false)) (by decide +kernel)
  have htwo := hone.performed (.table (.indexAt (.handle ⟨1⟩) false)) (by decide +kernel)
  have hreleased := htwo.performed (.heap (.release [⟨4⟩, ⟨3⟩])) (by decide +kernel)
  have hreused := hreleased.performed (.heap (.newHandle ⟨0x1040⟩)) (by decide +kernel)
  exact ⟨⟨#[_], #[], #[], #[], [], [], 0⟩, _, _, rfl, hreused.wellFormed, hreused.fits, by decide +kernel,
    by decide +kernel, by decide +kernel, exists_dumped rfl hreused.wellFormed hreused.fits false none ⟨true, false⟩⟩

end Session

end KnownObjects
