import KnownObjects.Dump.Document
import KnownObjects.Proofs.Dump.Lines
import KnownObjects.Proofs.Dump.Texts
import KnownObjects.Proofs.Table.Reached

/-!
# A forest accounts for every object and every field

Whatever the shape of the object graph, a forest expands every known object on one line, and prints one line below depth 0 for every field that leads from one known object to another. `Site.Accounts` says this of the lines alone; which line belongs to which field is what `Site.Traced` adds. How the lines read is said by `Site.Reads`, and they are printed so between the two tags.

Objects that are listed at two indices, which happens when handles of the table were given back, are expanded at both, and their fields are counted for both.
-/

namespace KnownObjects.Site

open Dump Dump.Graph

/-- The lines that start from fields are in order: one for each field that leads to a known object, below the line of the field's owner and one level deeper. -/
structure Traced (s : Site) (mutable : Bool) (entries : List Entry) : Prop where
  once : (originsIn entries).Nodup
  every : ∀ source, source ∈ originsIn entries ↔ ∃ e, s.Leads mutable source e
  root : ∀ x ∈ entries, x.origin = none ↔ x.line.visit.depth = 0
  unlabelled : ∀ x ∈ entries, x.origin = none → x.line.visit.label = ""
  below : ∀ before x rest source, entries = before ++ x :: rest → x.origin = some source →
    ∃ y ∈ before, ∃ v n e, y.line = .expanded v n ∧ v.index = source.owner ∧ s.Leads mutable source e ∧
      x.line.visit = e.visit (v.depth + 1)

structure Accounts (s : Site) (mutable : Bool) (lines : List Line) : Prop where
  /-- How often each index is expanded. -/
  expanded : ∀ i : Index, (lines.filterMap Line.expanded?).count i =
    if 0 < i.toNat ∧ i.toNat < s.table.endIndex.toNat then 1 else 0
  shown : ∀ v n, .expanded v n ∈ lines → ∃ o, s.Known v.index o ∧ n.address = o.address ∧ n.hash = o.hash ∧
    n.className = o.classInfo.simpleName
  /-- A line that expands nothing refers to a line above. -/
  referenced : ∀ before v rest, lines = before ++ .reference v :: rest → v.index ∈ before.filterMap Line.expanded?
  traced : ∃ entries, entries.map Entry.line = lines ∧ s.Traced mutable entries

variable {s : Site} {objects : List Object} {mutable : Bool}

theorem filterMap_expanded?_map_line (entries : List Entry) :
    (entries.map Entry.line).filterMap Line.expanded? = expandedIn entries := List.filterMap_map

namespace Shows

theorem length_nodes (objects : List Object) : (graphOf objects).nodes.length = objects.length := List.length_map _

theorem mem_indices_iff (hs : s.Shows objects) {i : Index} :
    i ∈ (graphOf objects).indices ↔ 0 < i.toNat ∧ i.toNat < s.table.endIndex.toNat := by
  have hend : s.table.endIndex.toNat = objects.length + 1 := by
    rw [← hs.length_eq]
    exact hs.fits.toNat_size
  simp only [indices]
  rw [List.mem_map, hend, length_nodes]
  constructor
  · rintro ⟨k, hk, rfl⟩
    rw [List.mem_range] at hk
    rw [hs.toNat_ofNat_succ hk]
    omega
  · rintro ⟨hpos, hlt⟩
    refine ⟨i.toNat - 1, List.mem_range.2 (by omega), ?_⟩
    rw [Nat.sub_add_cancel hpos, Index.ofNat_toNat]

theorem exists_node_iff (hs : s.Shows objects) {i : Index} :
    (∃ n, (graphOf objects).node? i = some n) ↔ 0 < i.toNat ∧ i.toNat < s.table.endIndex.toNat := by
  rw [← hs.mem_indices_iff]
  constructor
  · rintro ⟨n, hnode⟩
    exact mem_indices_of_node? hnode
  · intro hi
    obtain ⟨k, hk, rfl⟩ := List.mem_map.1 hi
    have hlt : k < objects.length := by
      rw [List.mem_range, length_nodes] at hk
      exact hk
    refine ⟨nodeOf objects objects[k], ?_⟩
    rw [node?_graphOf, objectAt?_eq_some_iff.2 ⟨k, hs.toNat_ofNat_succ hlt, List.getElem?_eq_getElem hlt⟩]
    rfl

section

variable (hs : s.Shows objects) {bound : Index} {after : IndexSet} {entries : List Entry}
  (hwalk : Walks (graphOf objects) (arrowsOf objects mutable) [] (.withCapacity bound) entries after)
  (hall : ∀ i ∈ (graphOf objects).indices, after.contains i = true)

include hs hwalk hall

theorem mem_expandedIn_iff {i : Index} :
    i ∈ expandedIn entries ↔ 0 < i.toNat ∧ i.toNat < s.table.endIndex.toNat := by
  constructor
  · intro hi
    obtain ⟨x, hx, v, n, hline, rfl⟩ := Graph.mem_expandedIn_iff.1 hi
    exact hs.exists_node_iff.1 ⟨n, hwalk.node?_of_expanded hx hline⟩
  · intro hi
    rcases (hwalk.contains_after_iff i).1 (hall i (hs.mem_indices_iff.2 hi)) with hseen | hmem
    · simp at hseen
    · exact hmem

theorem mem_originsIn_iff (source : Origin) : source ∈ originsIn entries ↔ ∃ e, s.Leads mutable source e := by
  obtain ⟨owner, slot⟩ := source
  rw [hwalk.originsIn_perm.mem_iff, List.filterMap_nil, List.nil_append, List.mem_flatMap]
  constructor
  · rintro ⟨i, -, hfield⟩
    obtain ⟨⟨e, k⟩, harrow, heq⟩ := List.mem_map.1 hfield
    rw [← heq]
    exact ⟨e, (mem_arrowsOf_iff hs).1 harrow⟩
  · rintro ⟨e, hleads⟩
    have harrow := (mem_arrowsOf_iff hs).2 hleads
    obtain ⟨f, a, ⟨o, hknown, -⟩, -⟩ := hleads
    have hnode : (graphOf objects).node? owner = some (nodeOf objects o) := by
      rw [node?_graphOf, hs.known_iff.1 hknown, Option.map_some]
    exact ⟨owner, (hs.mem_expandedIn_iff hwalk hall).2 (hs.exists_node_iff.1 ⟨_, hnode⟩),
      List.mem_map.2 ⟨_, harrow, rfl⟩⟩

theorem traced : s.Traced mutable entries where
  once := hwalk.originsIn_nodup (nodup_map_snd_arrowsOf objects mutable)
  every := hs.mem_originsIn_iff hwalk hall
  root _ hx := hwalk.origin_eq_none_iff hx
  unlabelled _ hx := hwalk.label_of_origin_eq_none hx
  below before x rest source hsplit horigin := by
    obtain ⟨y, hy, v, n, e, hline, howner, harrow, hvisit⟩ := hwalk.exists_owner_of_origin hsplit horigin
    exact ⟨y, hy, v, n, e, hline, howner, (mem_arrowsOf_iff hs).1 harrow, hvisit⟩

theorem accounts : s.Accounts mutable (entries.map Entry.line) where
  expanded i := by
    rw [filterMap_expanded?_map_line, hwalk.expandedIn_nodup.1.count]
    simp only [hs.mem_expandedIn_iff hwalk hall]
  shown v n hmem := by
    obtain ⟨x, hx, hline⟩ := List.mem_map.1 hmem
    have hnode := hwalk.node?_of_expanded hx hline
    rw [node?_graphOf] at hnode
    obtain ⟨o, hobject, rfl⟩ := Option.map_eq_some_iff.1 hnode
    exact ⟨o, hs.known_iff.2 hobject, rfl, rfl, rfl⟩
  referenced before v rest hsplit := by
    obtain ⟨first, others, rfl, rfl, hothers⟩ := List.map_eq_append_iff.1 hsplit
    obtain ⟨x, last, rfl, hline, -⟩ := List.map_eq_cons_iff.1 hothers
    obtain ⟨line, origin⟩ := x
    subst hline
    rcases hwalk.referenced rfl with hseen | hmem
    · simp at hseen
    · rwa [filterMap_expanded?_map_line]
  traced := ⟨entries, rfl, hs.traced hwalk hall⟩

omit hall in
theorem reads : List.Forall₂ s.Reads (entries.map Entry.line) ((entries.map Entry.line).map Line.text) := by
  rw [List.forall₂_map_right_iff, List.forall₂_same]
  intro line hmem
  obtain ⟨x, hx, rfl⟩ := List.mem_map.1 hmem
  cases hline : x.line with
  | reference v =>
    rw [text_reference_eq_spelling]
    exact .reference v
  | expanded v n =>
    have hnode := hwalk.node?_of_expanded hx hline
    rw [node?_graphOf] at hnode
    obtain ⟨o, hobject, rfl⟩ := Option.map_eq_some_iff.1 hnode
    rw [text_expanded_eq_spelling]
    exact .expanded (hs.known_iff.2 hobject)

end

/-- The forest of a table is printed by a walk that leaves no object out. -/
theorem exists_walks (hs : s.Shows objects) (mutable : Bool) : ∃ (entries : List Entry) (after : IndexSet),
    entries.map Entry.line = (graphOf objects).forest mutable s.table.endIndex ∧
      Walks (graphOf objects) (arrowsOf objects mutable) [] (.withCapacity s.table.endIndex) entries after ∧
      ∀ i ∈ (graphOf objects).indices, after.contains i = true :=
  exists_walks_forest (charted_graphOf hs mutable) (fun _ hi => hs.exists_node_iff.2 (hs.mem_indices_iff.1 hi))
    s.table.endIndex

theorem readForest_eq (hs : s.Shows objects) (mutable : Bool) : readForest s.heap s.table mutable =
    .forest ((graphOf objects).marked s.table.endIndex).size s.table.slots.handles.length
      ((graphOf objects).forest mutable s.table.endIndex) := by
  simp only [readForest]
  rw [hs.graph_eq, hs.length_eq, ← length_nodes]

theorem accounts_forest (hs : s.Shows objects) (mutable : Bool) :
    s.Accounts mutable ((graphOf objects).forest mutable s.table.endIndex) := by
  obtain ⟨entries, after, hlines, hwalk, hall⟩ := hs.exists_walks mutable
  rw [← hlines]
  exact hs.accounts hwalk hall

theorem reads_forest (hs : s.Shows objects) (mutable : Bool) :
    List.Forall₂ s.Reads ((graphOf objects).forest mutable s.table.endIndex)
      (((graphOf objects).forest mutable s.table.endIndex).map Line.text) := by
  obtain ⟨entries, after, hlines, hwalk, -⟩ := hs.exists_walks mutable
  rw [← hlines]
  exact hs.reads hwalk

end Shows

/-- A dump with a graph prints a forest that accounts for every object and every field, if all handles of the table resolve. -/
theorem exists_forest_accounts (hreached : s.Reached) (hintact : s.Intact) (mutable : Bool) :
    ∃ marked lines texts, readForest s.heap s.table mutable = .forest marked s.table.slots.handles.length lines ∧
      s.Accounts mutable lines ∧ List.Forall₂ s.Reads lines texts ∧
      (printAll (readForest s.heap s.table mutable).events).text =
        "</knownObjectTable>\n<knownObjectGraph>\n" ++ String.join texts ++ "</knownObjectGraph>\n" := by
  obtain ⟨objects, hs⟩ := hreached.wellFormed.exists_shows hreached.fits hintact
  have hread := hs.readForest_eq mutable
  refine ⟨_, _, _, hread, hs.accounts_forest mutable, hs.reads_forest mutable, ?_⟩
  rw [hread]
  exact text_forest _ _ _

/-- Two objects on a cycle of final fields, one of which refers to itself and the other to an array, printed after a collection. -/
theorem exists_forest_of_cycle : ∃ s : Site, s.Reached ∧ s.Intact ∧ s.table.slots.handles.length = 3 ∧
    ∃ marked lines texts, readForest s.heap s.table true = .forest marked s.table.slots.handles.length lines ∧
      s.Accounts true lines ∧ List.Forall₂ s.Reads lines texts ∧
      (printAll (readForest s.heap s.table true).events).text =
        "</knownObjectTable>\n<knownObjectGraph>\n" ++ String.join texts ++ "</knownObjectGraph>\n" := by
  have hstart := Reached.start (@Heap.Reached.created 0 .default _ rfl)
  have hnode := hstart.performed (.heap (.define ⟨"p/Node", [(Field.ofSignature "next" "Lp/Node;").immutable,
    .ofSignature "peer" "Ljava/lang/Object;", .ofSignature "label" "I"], false⟩)) (by decide)
  have harray := hnode.performed (.heap (.define ⟨"[Lp/Node;", [], true⟩)) (by decide +kernel)
  have hfirst := harray.performed (.heap (.allocate 0)) (by decide +kernel)
  have hsecond := hfirst.performed (.heap (.allocate 0)) (by decide +kernel)
  have hthird := hsecond.performed (.heap (.allocate 1)) (by decide +kernel)
  have hthere := hthird.performed (.heap (.store ⟨0⟩ "next" (.ref ⟨1⟩))) (by decide +kernel)
  have hback := hthere.performed (.heap (.store ⟨1⟩ "next" (.ref ⟨0⟩))) (by decide +kernel)
  have hself := hback.performed (.heap (.store ⟨0⟩ "peer" (.ref ⟨0⟩))) (by decide +kernel)
  have hshared := hself.performed (.heap (.store ⟨1⟩ "peer" (.ref ⟨2⟩))) (by decide +kernel)
  have hone := hshared.performed (.table (.indexAt (.handle ⟨2⟩) false)) (by decide +kernel)
  have htwo := hone.performed (.table (.indexAt (.handle ⟨0⟩) false)) (by decide +kernel)
  have hthree := htwo.performed (.table (.indexAt (.handle ⟨1⟩) false)) (by decide +kernel)
  have hmoved := hthree.performed (.heap .collect) (by decide +kernel)
  exact ⟨_, hmoved, by decide +kernel, by decide +kernel, exists_forest_accounts hmoved (by decide +kernel) true⟩

end KnownObjects.Site
