import KnownObjects.Proofs.Dump.Accounts
import KnownObjects.Proofs.Dump.Roots
import Mathlib.Data.Fintype.EquivFin
import Mathlib.Order.WellFounded
import Mathlib.Data.List.Pairwise

/-!
# Which objects a forest puts at the top

A forest that goes through final fields alone puts an object at the top if no known object refers to it through such a field. An object that is referred to is printed under one that refers to it, unless all that leads to it is referred to in turn. Then there is a cycle among what leads to it, and it is put at the top if its index is lower than all those.

Such an object need not lie on the cycle. Where it only hangs off a cycle and has the lowest index, it stands at the top, though it could be printed under the object on the cycle that refers to it.
-/

namespace KnownObjects

open Dump Dump.Graph Relation

/-! ### Nesting -/

namespace Dump.Graph.Walks

variable {g : Graph} {arrows : Index → List (Edge × Nat)} {pending : List Pending} {seen after : IndexSet}
  {entries : List Entry}

/-- Below the line of an object, the walk goes on with its fields. -/
theorem exists_walks_below (h : Walks g arrows pending seen entries after) {before rest : List Entry} {v : Visit}
    {n : Node} {origin : Option Origin} (hsplit : entries = before ++ ⟨.expanded v n, origin⟩ :: rest) :
    ∃ pending' seen', Walks g arrows (offspring arrows v ++ pending') seen' rest after := by
  induction h generalizing before with
  | done => simp at hsplit
  | started _ _ ih => exact ih hsplit
  | reference _ _ ih =>
    cases before with
    | nil => simp at hsplit
    | cons x before => exact ih (List.cons.inj hsplit).2
  | expanded _ _ hrest ih =>
    cases before with
    | nil =>
      obtain ⟨hline, rfl⟩ := List.cons.inj hsplit
      simp only [Entry.mk.injEq, Line.expanded.injEq] at hline
      obtain ⟨⟨rfl, -⟩, -⟩ := hline
      exact ⟨_, _, hrest⟩
    | cons x before => exact ih (List.cons.inj hsplit).2

/-- Before a pending visit comes to its turn, there are only lines as deep as what is above it on the stack. -/
theorem exists_line_of_pending (h : Walks g arrows pending seen entries after) {front back : List Pending} {p : Pending}
    {depth : Nat} (hpending : pending = front ++ p :: back) (hfront : ∀ q ∈ front, depth ≤ q.visit.depth) :
    ∃ between x rest, entries = between ++ x :: rest ∧ x.line.visit = p.visit ∧ x.origin = p.origin ∧
      ∀ y ∈ between, depth ≤ y.line.visit.depth := by
  induction h generalizing front with
  | done => simp at hpending
  | started => simp at hpending
  | reference _ _ ih =>
    cases front with
    | nil =>
      obtain ⟨rfl, -⟩ := List.cons.inj hpending
      exact ⟨[], _, _, rfl, rfl, rfl, by simp⟩
    | cons q front =>
      obtain ⟨rfl, hothers⟩ := List.cons.inj hpending
      obtain ⟨hq, hfront⟩ := List.forall_mem_cons.1 hfront
      obtain ⟨between, x, rest, rfl, hvisit, horigin, hdeep⟩ := ih hothers hfront
      exact ⟨_ :: between, x, rest, rfl, hvisit, horigin, List.forall_mem_cons.2 ⟨hq, hdeep⟩⟩
  | @expanded top _ _ _ _ _ _ _ _ ih =>
    cases front with
    | nil =>
      obtain ⟨rfl, -⟩ := List.cons.inj hpending
      exact ⟨[], _, _, rfl, rfl, rfl, by simp⟩
    | cons q front =>
      obtain ⟨rfl, rfl⟩ := List.cons.inj hpending
      obtain ⟨hq, hfront⟩ := List.forall_mem_cons.1 hfront
      have habove : ∀ r ∈ offspring arrows top.visit ++ front, depth ≤ r.visit.depth := by
        intro r hr
        rcases List.mem_append.1 hr with hr | hr
        · obtain ⟨arrow, -, rfl⟩ := List.mem_map.1 hr
          exact Nat.le_succ_of_le hq
        · exact hfront r hr
      obtain ⟨between, x, rest, rfl, hvisit, horigin, hdeep⟩ := ih (List.append_assoc ..).symm habove
      exact ⟨_ :: between, x, rest, rfl, hvisit, horigin, List.forall_mem_cons.2 ⟨hq, hdeep⟩⟩

/-- Two lines that start from the same field are the same line. -/
theorem eq_of_origin_eq (h : Walks g arrows [] seen entries after) (hslots : ∀ i, ((arrows i).map Prod.snd).Nodup)
    {x y : Entry} (hx : x ∈ entries) (hy : y ∈ entries) {source : Origin} (hxo : x.origin = some source)
    (hyo : y.origin = some source) : x = y := by
  by_contra hne
  have hnodup := h.originsIn_nodup hslots
  unfold originsIn List.Nodup at hnodup
  rw [List.pairwise_filterMap] at hnodup
  have hsymm : Std.Symm fun x y : Entry => ∀ b, x.origin = some b → ∀ b', y.origin = some b' → b ≠ b' :=
    ⟨fun x y h b hb b' hb' => (h b' hb' b hb).symm⟩
  exact hnodup.forall hx hy hne source hxo source hyo rfl

end Dump.Graph.Walks

/-! ### Cycles -/

instance : Finite Index := Finite.of_injective (fun i => (⟨i.toNat, i.toNat_lt⟩ : Fin 4294967296))
  fun _ _ h => Index.ext_toNat (Fin.mk.inj h)

/-- If one can always go back another step, one has come from a cycle. -/
theorem Index.exists_cycle {R : Index → Index → Prop} {i : Index} (h : ∀ j, ReflTransGen R j i → ∃ k, R k j) :
    ∃ c, TransGen R c c ∧ ReflTransGen R c i := by
  by_contra hnone
  let back : Index → Index → Prop := fun a b => TransGen R a b ∧ ReflTransGen R b i
  have htrans : IsTrans Index back := ⟨fun _ _ _ hab hbc => ⟨hab.1.trans hbc.1, hbc.2⟩⟩
  have hirrefl : Std.Irrefl back := ⟨fun a ha => hnone ⟨a, ha⟩⟩
  -- The indices are finitely many, so that there is a first one among those that lead here.
  obtain ⟨j, hj, hfirst⟩ := (Finite.wellFounded_of_trans_of_irrefl back).has_min {j | ReflTransGen R j i} ⟨i, .refl⟩
  obtain ⟨k, hk⟩ := h j hj
  exact hfirst k (hj.head hk) ⟨.single hk, hj⟩

/-! ### References between known objects -/

namespace Site

/-- An object that is not an array refers to another known object through a final field. -/
def Refers (s : Site) (i j : Index) : Prop := ∃ slot e, s.Leads false ⟨i, slot⟩ e ∧ e.target = j

/-- Which lines of a forest through final fields are not indented, and where the others stand. -/
structure Rooted (s : Site) (lines : List Line) : Prop where
  tops : ∀ i o, s.Known i o → (Tops lines i ↔ (∀ j, ¬s.Refers j i) ∨
    ∀ j, ReflTransGen s.Refers j i → (∃ k, s.Refers k j) ∧ i ≤ j)
  /-- What is referred to is at the top only if a cycle leads to it. -/
  cyclic : ∀ i, Tops lines i → (∃ j, s.Refers j i) → ∃ c, TransGen s.Refers c c ∧ ReflTransGen s.Refers c i
  /-- Otherwise it is printed under an object that refers to it. -/
  nested : ∀ i, (∃ j, s.Refers j i) → ¬Tops lines i → ∃ before v n between e slot m rest,
    lines = before ++ .expanded v n :: between ++ .expanded (e.visit (v.depth + 1)) m :: rest ∧
      s.Leads false ⟨v.index, slot⟩ e ∧ e.target = i ∧ ∀ line ∈ between, v.depth < line.visit.depth

variable {s : Site} {objects : List Object}

theorem Refers.known {i j : Index} (h : s.Refers i j) : (∃ o, s.Known i o) ∧ ∃ o, s.Known j o := by
  obtain ⟨slot, e, ⟨f, a, ⟨o, hknown, -⟩, -, ⟨⟨p, htarget, -⟩, -⟩, -⟩, rfl⟩ := h
  exact ⟨⟨o, hknown⟩, ⟨p, htarget⟩⟩

namespace Shows

theorem refers_iff_arrow (hs : s.Shows objects) {i j : Index} :
    s.Refers i j ↔ ∃ e slot, (e, slot) ∈ arrowsOf objects false i ∧ e.target = j := by
  constructor
  · rintro ⟨slot, e, hleads, rfl⟩
    exact ⟨e, slot, (mem_arrowsOf_iff hs).2 hleads, rfl⟩
  · rintro ⟨e, slot, harrow, rfl⟩
    exact ⟨slot, e, (mem_arrowsOf_iff hs).1 harrow, rfl⟩

theorem refers_iff (hs : s.Shows objects) {i j : Index} : s.Refers i j ↔ (graphOf objects).Follows false i j := by
  rw [hs.refers_iff_arrow]
  constructor
  · rintro ⟨e, slot, harrow, rfl⟩
    obtain ⟨f, a, ⟨o, hknown, -⟩, -⟩ := (mem_arrowsOf_iff hs).1 harrow
    have hnode : (graphOf objects).node? i = some (nodeOf objects o) := by
      rw [node?_graphOf, hs.known_iff.1 hknown, Option.map_some]
    have hedge := List.mem_map_of_mem (f := Prod.fst) harrow
    rw [(charted_graphOf hs false).edges hnode] at hedge
    obtain ⟨he, hfinal⟩ := List.mem_filter.1 hedge
    exact ⟨_, hnode, e, he, hfinal, rfl⟩
  · rintro ⟨n, hnode, e, he, hfinal, rfl⟩
    have hedge : e ∈ (arrowsOf objects false i).map Prod.fst := by
      rw [(charted_graphOf hs false).edges hnode]
      exact List.mem_filter.2 ⟨he, hfinal⟩
    obtain ⟨⟨d, slot⟩, harrow, rfl⟩ := List.mem_map.1 hedge
    exact ⟨d, slot, harrow, rfl⟩

theorem refers_eq (hs : s.Shows objects) : s.Refers = (graphOf objects).Follows false :=
  funext fun _ => funext fun _ => propext hs.refers_iff

theorem closed_graphOf (hs : s.Shows objects) : (graphOf objects).Closed false := by
  rintro i j ⟨n, hnode, e, he, -, rfl⟩
  exact (charted_graphOf hs false).closed hnode e he

theorem known_iff_mem_indices (hs : s.Shows objects) {i : Index} :
    (∃ o, s.Known i o) ↔ i ∈ (graphOf objects).indices := by
  rw [hs.mem_indices_iff, ← hs.exists_node_iff]
  constructor
  · rintro ⟨o, hknown⟩
    exact ⟨_, by rw [node?_graphOf, hs.known_iff.1 hknown, Option.map_some]⟩
  · rintro ⟨n, hnode⟩
    rw [node?_graphOf] at hnode
    obtain ⟨o, hobject, -⟩ := Option.map_eq_some_iff.1 hnode
    exact ⟨o, hs.known_iff.2 hobject⟩

theorem length_nodes_lt (hs : s.Shows objects) : (graphOf objects).nodes.length < 4294967295 := by
  have hfits : s.table.slots.handles.length + 1 < 4294967295 := hs.fits
  rw [hs.length_eq] at hfits
  rw [length_nodes]
  omega

variable (hs : s.Shows objects) {entries : List Entry} {after : IndexSet}
  (hwalk : Walks (graphOf objects) (arrowsOf objects false) [] (.withCapacity s.table.endIndex) entries after)
  (hall : ∀ i ∈ (graphOf objects).indices, after.contains i = true)

include hs hwalk hall

theorem exists_expanded (i : Index) (hi : ∃ o, s.Known i o) :
    ∃ before v n origin rest, entries = before ++ ⟨.expanded v n, origin⟩ :: rest ∧ v.index = i := by
  rw [hs.known_iff_mem_indices, hs.mem_indices_iff, ← hs.mem_expandedIn_iff hwalk hall] at hi
  obtain ⟨⟨line, origin⟩, hx, v, n, rfl, hindex⟩ := Graph.mem_expandedIn_iff.1 hi
  obtain ⟨before, rest, hsplit⟩ := List.append_of_mem hx
  exact ⟨before, v, n, origin, rest, hsplit, hindex⟩

/-- What is not at the top is printed under an object that refers to it. -/
theorem nested {i : Index} (hreferred : ∃ j, s.Refers j i) (hdeep : ¬Tops (entries.map Entry.line) i) :
    ∃ before v n between e slot m rest,
      entries.map Entry.line = before ++ .expanded v n :: between ++ .expanded (e.visit (v.depth + 1)) m :: rest ∧
        s.Leads false ⟨v.index, slot⟩ e ∧ e.target = i ∧ ∀ line ∈ between, v.depth < line.visit.depth := by
  obtain ⟨j, hrefers⟩ := hreferred
  obtain ⟨above, w, m, origin, below, hsplit, rfl⟩ := hs.exists_expanded hwalk hall i hrefers.known.2
  have hx : ⟨.expanded w m, origin⟩ ∈ entries := hsplit ▸ List.mem_append_right _ List.mem_cons_self
  have horigin : origin ≠ none := by
    intro hnone
    exact hdeep ⟨w, m, List.mem_map_of_mem hx, (hwalk.origin_eq_none_iff hx).1 hnone, rfl⟩
  obtain ⟨⟨owner, slot⟩, rfl⟩ := Option.ne_none_iff_exists'.1 horigin
  obtain ⟨e, hleads⟩ := (hs.mem_originsIn_iff hwalk hall ⟨owner, slot⟩).1 (List.mem_filterMap.2 ⟨_, hx, rfl⟩)
  have hknown : s.Refers owner e.target := ⟨slot, e, hleads, rfl⟩
  obtain ⟨before, v, n, ownerOrigin, rest, hentries, rfl⟩ := hs.exists_expanded hwalk hall owner hknown.known.1
  obtain ⟨pending, seen, hbelow⟩ := hwalk.exists_walks_below hentries
  -- The field of the owner that the line starts from is pending when the walk goes on below the owner.
  have hpending : ⟨e.visit (v.depth + 1), some ⟨v.index, slot⟩⟩ ∈ offspring (arrowsOf objects false) v :=
    List.mem_map.2 ⟨(e, slot), (mem_arrowsOf_iff hs).2 hleads, rfl⟩
  obtain ⟨front, back, hfields⟩ := List.append_of_mem hpending
  have hfront : ∀ q ∈ front, v.depth + 1 ≤ q.visit.depth := by
    intro q hq
    have hfield : q ∈ offspring (arrowsOf objects false) v := hfields ▸ List.mem_append_left _ hq
    obtain ⟨arrow, -, rfl⟩ := List.mem_map.1 hfield
    exact Nat.le_refl _
  obtain ⟨between, x, rest, rfl, hvisit, hfield, hdeeper⟩ := hbelow.exists_line_of_pending
    (by rw [hfields, List.append_assoc, List.cons_append]) hfront
  have hsame := hwalk.eq_of_origin_eq (nodup_map_snd_arrowsOf objects false) hx
    (y := x) (by rw [hentries]; simp) rfl hfield
  subst hsame
  obtain rfl : w = e.visit (v.depth + 1) := hvisit
  refine ⟨before.map Entry.line, v, n, between.map Entry.line, e, slot, m, rest.map Entry.line, ?_, hleads, rfl, ?_⟩
  · rw [hentries]
    simp
  · intro line hline
    obtain ⟨y, hy, rfl⟩ := List.mem_map.1 hline
    exact hdeeper y hy

theorem rooted (hlines : entries.map Entry.line = (graphOf objects).forest false s.table.endIndex) :
    s.Rooted (entries.map Entry.line) := by
  have htops : ∀ i, (∃ o, s.Known i o) → (Tops (entries.map Entry.line) i ↔ (∀ j, ¬s.Refers j i) ∨
      ∀ j, ReflTransGen s.Refers j i → (∃ k, s.Refers k j) ∧ i ≤ j) := by
    intro i hi
    rw [hlines, hs.refers_eq]
    exact tops_forest_iff hs.length_nodes_lt hs.closed_graphOf _ (hs.known_iff_mem_indices.1 hi)
  refine ⟨fun i o hknown => htops i ⟨o, hknown⟩, ?_, fun i => hs.nested hwalk hall⟩
  rintro i hi ⟨j, hrefers⟩
  rcases (htops i hrefers.known.2).1 hi with hnone | hled
  · exact absurd hrefers (hnone j)
  · exact Index.exists_cycle fun k hpath => (hled k hpath).1

end Shows

theorem Shows.exists_rooted (hs : s.Shows objects) : ∃ marked lines,
    readForest s.heap s.table false = .forest marked s.table.slots.handles.length lines ∧ s.Rooted lines := by
  obtain ⟨entries, after, hlines, hwalk, hall⟩ := hs.exists_walks false
  have hread := hs.readForest_eq false
  rw [← hlines] at hread
  exact ⟨_, _, hread, hs.rooted hwalk hall hlines⟩

/-- In a forest through final fields an object that is referred to stands under one that refers to it, unless its index is lower than all those that lead to it, each of which is referred to in turn. -/
theorem exists_forest_rooted (hreached : s.Reached) (hintact : s.Intact) :
    ∃ marked lines, readForest s.heap s.table false = .forest marked s.table.slots.handles.length lines ∧
      s.Rooted lines := by
  obtain ⟨objects, hs⟩ := hreached.wellFormed.exists_shows hreached.fits hintact
  exact hs.exists_rooted

/-- Two objects on a cycle of final fields, and a third that one of them refers to. The third has the lowest index. -/
theorem exists_branch : ∃ s : Site, s.Reached ∧ s.Intact ∧
    (graph s.heap s.table).toOption.map (fun g => g.links false) =
      some [(.ofNat 2, .ofNat 3), (.ofNat 3, .ofNat 2), (.ofNat 3, .ofNat 1)] := by
  have hstart := Reached.start (@Heap.Reached.created 0 .default _ rfl)
  have hnode := hstart.performed (.heap (.define ⟨"p/Node", [(Field.ofSignature "p" "Lp/Node;").immutable,
    (Field.ofSignature "q" "Lp/Node;").immutable], false⟩)) (by decide)
  have hfirst := hnode.performed (.heap (.allocate 0)) (by decide +kernel)
  have hsecond := hfirst.performed (.heap (.allocate 0)) (by decide +kernel)
  have hthird := hsecond.performed (.heap (.allocate 0)) (by decide +kernel)
  have hthere := hthird.performed (.heap (.store ⟨1⟩ "p" (.ref ⟨2⟩))) (by decide +kernel)
  have hback := hthere.performed (.heap (.store ⟨2⟩ "p" (.ref ⟨1⟩))) (by decide +kernel)
  have hbranch := hback.performed (.heap (.store ⟨2⟩ "q" (.ref ⟨0⟩))) (by decide +kernel)
  have hone := hbranch.performed (.table (.indexAt (.handle ⟨0⟩) false)) (by decide +kernel)
  have htwo := hone.performed (.table (.indexAt (.handle ⟨1⟩) false)) (by decide +kernel)
  have hthree := htwo.performed (.table (.indexAt (.handle ⟨2⟩) false)) (by decide +kernel)
  exact ⟨_, hthree, by decide +kernel, by decide +kernel⟩

theorem exists_forest_rooted_of_branch : ∃ s : Site, s.Reached ∧ s.Intact ∧
    (graph s.heap s.table).toOption.map (fun g => g.links false) =
      some [(.ofNat 2, .ofNat 3), (.ofNat 3, .ofNat 2), (.ofNat 3, .ofNat 1)] ∧
    ∃ marked lines, readForest s.heap s.table false = .forest marked s.table.slots.handles.length lines ∧
      s.Rooted lines := by
  obtain ⟨s, hreached, hintact, hlinks⟩ := exists_branch
  exact ⟨s, hreached, hintact, hlinks, exists_forest_rooted hreached hintact⟩

/-- An object can stand at the top though another one refers to it and no cycle goes through it. -/
theorem exists_top_off_cycle : ∃ (s : Site) (marked known : Nat) (lines : List Line) (i : Index),
    s.Reached ∧ s.Intact ∧ readForest s.heap s.table false = .forest marked known lines ∧ Tops lines i ∧
      (∃ j, s.Refers j i) ∧ ¬TransGen s.Refers i i := by
  obtain ⟨s, hreached, hintact, hbranch⟩ := exists_branch
  obtain ⟨objects, hs⟩ := hreached.wellFormed.exists_shows hreached.fits hintact
  rw [hs.graph_eq] at hbranch
  have hrefers : ∀ {i j}, s.Refers i j ↔
      (i, j) ∈ [(Index.ofNat 2, Index.ofNat 3), (.ofNat 3, .ofNat 2), (.ofNat 3, .ofNat 1)] := by
    intro i j
    rw [hs.refers_iff, ← mem_links_iff, ← Option.some.inj hbranch]
  have hbranches : s.Refers (.ofNat 3) (.ofNat 1) := hrefers.2 (by decide)
  obtain ⟨marked, lines, hread, hrooted⟩ := hs.exists_rooted
  obtain ⟨o, hknown⟩ := hbranches.known.2
  refine ⟨s, marked, _, lines, .ofNat 1, hreached, hintact, hread, ?_, ⟨_, hbranches⟩, ?_⟩
  · refine (hrooted.tops _ o hknown).2 (Or.inr fun j hpath => ?_)
    rcases hpath.cases_head with rfl | ⟨k, hstep, -⟩
    · exact ⟨⟨_, hbranches⟩, Nat.le_refl _⟩
    · have hlink := hrefers.1 hstep
      simp only [List.mem_cons, Prod.mk.injEq, List.not_mem_nil, or_false] at hlink
      rcases hlink with ⟨rfl, -⟩ | ⟨rfl, -⟩ | ⟨rfl, -⟩
      · exact ⟨⟨.ofNat 3, hrefers.2 (by decide)⟩, by decide⟩
      · exact ⟨⟨.ofNat 2, hrefers.2 (by decide)⟩, by decide⟩
      · exact ⟨⟨.ofNat 2, hrefers.2 (by decide)⟩, by decide⟩
  · intro hcycle
    obtain ⟨k, hstep, -⟩ := TransGen.head'_iff.1 hcycle
    have hlink : Index.ofNat 1 ∈ [Index.ofNat 2, .ofNat 3, .ofNat 3] :=
      List.mem_map_of_mem (f := Prod.fst) (hrefers.1 hstep)
    exact absurd hlink (by decide)

end Site

end KnownObjects
