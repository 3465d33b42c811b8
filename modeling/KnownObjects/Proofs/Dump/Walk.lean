import KnownObjects.Dump.Forest

/-!
# The steps of a walk

A walk prints one line for each visit that it takes off its stack. Here a visit is kept together with its origin, the field of a known object that it starts from, so that the lines can be counted against the fields. `Graph.Walks` lists once what can become of the visit on top; trees that are walked one after the other are a single walk, which starts anew whenever nothing is pending. The facts about the lines of a forest are inductions over such a walk.

Which fields the edges come from is for the heap to say, so it is a parameter here: `arrows` gives the edges that are followed from an index, each with the slot of its field.
-/

namespace KnownObjects.Dump

/-- A field of a known object. -/
structure Origin where
  owner : Index
  slot : Nat
deriving DecidableEq

/-- A visit and the field that it starts from. The visit at the root of a tree starts from none. -/
structure Pending where
  visit : Visit
  origin : Option Origin
deriving DecidableEq

/-- A line and the field that its visit started from. -/
structure Entry where
  line : Line
  origin : Option Origin
deriving DecidableEq

def Line.expanded? : Line → Option Index
  | expanded v _ => some v.index
  | reference _ => none

def Edge.visit (e : Edge) (depth : Nat) : Visit := ⟨depth, e.field ++ (if e.isFinal then " is " else " = "), e.target⟩

namespace Graph

def offspring (arrows : Index → List (Edge × Nat)) (v : Visit) : List Pending :=
  (arrows v.index).map fun arrow => ⟨arrow.1.visit (v.depth + 1), some ⟨v.index, arrow.2⟩⟩

/-- What a graph and the arrows need for a walk: they have the same edges, and every edge leads to a node. -/
structure Charted (g : Graph) (mutable : Bool) (arrows : Index → List (Edge × Nat)) : Prop where
  edges : ∀ {i n}, g.node? i = some n → (arrows i).map Prod.fst = n.edges.filter fun e => e.isFinal || mutable
  closed : ∀ {i n}, g.node? i = some n → ∀ e ∈ n.edges, ∃ m, g.node? e.target = some m

inductive Walks (g : Graph) (arrows : Index → List (Edge × Nat)) :
    List Pending → IndexSet → List Entry → IndexSet → Prop
  | done {seen : IndexSet} : Walks g arrows [] seen [] seen
  | started {i : Index} {seen after : IndexSet} {entries : List Entry} : seen.contains i = false →
    Walks g arrows [⟨.root i, none⟩] seen entries after → Walks g arrows [] seen entries after
  | reference {p : Pending} {pending : List Pending} {seen after : IndexSet} {entries : List Entry} :
    seen.contains p.visit.index = true → Walks g arrows pending seen entries after →
    Walks g arrows (p :: pending) seen (⟨.reference p.visit, p.origin⟩ :: entries) after
  | expanded {p : Pending} {n : Node} {pending : List Pending} {seen after : IndexSet} {entries : List Entry} :
    seen.contains p.visit.index = false → g.node? p.visit.index = some n →
    Walks g arrows (offspring arrows p.visit ++ pending) (seen.insert p.visit.index).2 entries after →
    Walks g arrows (p :: pending) seen (⟨.expanded p.visit n, p.origin⟩ :: entries) after

variable {g : Graph} {mutable : Bool} {arrows : Index → List (Edge × Nat)}

theorem Charted.children_eq (hg : g.Charted mutable arrows) {v : Visit} {n : Node} (hnode : g.node? v.index = some n) :
    n.children mutable (v.depth + 1) = (offspring arrows v).map Pending.visit := by
  simp only [Node.children, offspring]
  rw [← hg.edges hnode, List.map_map, List.map_map]
  rfl

theorem Charted.exists_node (hg : g.Charted mutable arrows) {v : Visit} {n : Node} (hnode : g.node? v.index = some n)
    {p : Pending} (hp : p ∈ offspring arrows v) : ∃ m, g.node? p.visit.index = some m := by
  obtain ⟨⟨e, k⟩, harrow, rfl⟩ := List.mem_map.1 hp
  have hedge : e ∈ n.edges.filter fun e => e.isFinal || mutable := by
    rw [← hg.edges hnode]
    exact List.mem_map_of_mem harrow
  exact hg.closed hnode e (List.mem_filter.1 hedge).1

/-- A walk that has nothing left to do can be followed by another one. -/
theorem Walks.append {pending : List Pending} {seen middle after : IndexSet} {first others : List Entry}
    (hfirst : Walks g arrows pending seen first middle) (hothers : Walks g arrows [] middle others after) :
    Walks g arrows pending seen (first ++ others) after := by
  induction hfirst with
  | done => exact hothers
  | started hnew _ ih => exact .started hnew (ih hothers)
  | reference hseen _ ih => exact .reference hseen (ih hothers)
  | expanded hnew hnode _ ih => exact .expanded hnew hnode (ih hothers)

theorem walk_of_seen {v : Visit} {seen : IndexSet} (hseen : seen.contains v.index = true) (visits : List Visit) :
    g.walk mutable (v :: visits) seen =
      (.reference v :: (g.walk mutable visits seen).1, (g.walk mutable visits seen).2) := by
  rw [walk, dif_pos hseen]

theorem walk_of_unseen {v : Visit} {seen : IndexSet} {n : Node} (hnew : seen.contains v.index = false)
    (hnode : g.node? v.index = some n) (visits : List Visit) :
    g.walk mutable (v :: visits) seen =
      (.expanded v n :: (g.walk mutable (n.children mutable (v.depth + 1) ++ visits) (seen.insert v.index).2).1,
        (g.walk mutable (n.children mutable (v.depth + 1) ++ visits) (seen.insert v.index).2).2) := by
  rw [walk, dif_neg (by simp [hnew])]
  split
  · rename_i hnone
    rw [hnode] at hnone
    simp at hnone
  · rename_i m hm
    obtain rfl := Option.some.inj (hnode.symm.trans hm)
    rfl

/-- The function that prints a tree takes the steps listed, if every pending visit leads to a node. -/
theorem exists_walks (hg : g.Charted mutable arrows) (pending : List Pending) (seen : IndexSet)
    (hpending : ∀ p ∈ pending, ∃ n, g.node? p.visit.index = some n) :
    ∃ entries, entries.map Entry.line = (g.walk mutable (pending.map Pending.visit) seen).1 ∧
      Walks g arrows pending seen entries (g.walk mutable (pending.map Pending.visit) seen).2 := by
  generalize hvisits : pending.map Pending.visit = visits
  induction visits, seen using Graph.walk.induct g mutable generalizing pending with
  | case1 seen =>
    obtain rfl := List.map_eq_nil_iff.1 hvisits
    rw [walk]
    exact ⟨[], rfl, .done⟩
  | case2 v visits seen hseen ih =>
    obtain ⟨p, rest, rfl, rfl, rfl⟩ := List.map_eq_cons_iff.1 hvisits
    obtain ⟨entries, hlines, hwalk⟩ := ih rest (fun q hq => hpending q (List.mem_cons_of_mem p hq)) rfl
    rw [walk_of_seen hseen]
    exact ⟨⟨.reference p.visit, p.origin⟩ :: entries, by rw [List.map_cons, hlines], .reference hseen hwalk⟩
  | case3 v visits seen hseen hnode ih =>
    -- The function has a branch for visits that lead nowhere, which a charted graph never takes.
    obtain ⟨p, rest, rfl, rfl, rfl⟩ := List.map_eq_cons_iff.1 hvisits
    obtain ⟨n, hn⟩ := hpending p List.mem_cons_self
    rw [hn] at hnode
    simp at hnode
  | case4 v visits seen hseen n hnode ih =>
    obtain ⟨p, rest, rfl, rfl, rfl⟩ := List.map_eq_cons_iff.1 hvisits
    have hnew : seen.contains p.visit.index = false := Bool.eq_false_iff.2 hseen
    have hall : ∀ q ∈ offspring arrows p.visit ++ rest, ∃ n, g.node? q.visit.index = some n := by
      intro q hq
      rcases List.mem_append.1 hq with hq | hq
      · exact hg.exists_node hnode hq
      · exact hpending q (List.mem_cons_of_mem p hq)
    have hchildren : (offspring arrows p.visit ++ rest).map Pending.visit =
        n.children mutable (p.visit.depth + 1) ++ rest.map Pending.visit := by
      rw [List.map_append, hg.children_eq hnode]
    obtain ⟨entries, hlines, hwalk⟩ := ih _ hall hchildren
    rw [walk_of_unseen hnew hnode]
    exact ⟨⟨.expanded p.visit n, p.origin⟩ :: entries, by rw [List.map_cons, hlines], .expanded hnew hnode hwalk⟩

/-! ### What a walk sees -/

/-- The indices that the lines expand, in order. -/
def expandedIn (entries : List Entry) : List Index := entries.filterMap fun x => x.line.expanded?

@[simp] theorem expandedIn_nil : expandedIn [] = [] := rfl

@[simp] theorem expandedIn_expanded (v : Visit) (n : Node) (origin : Option Origin) (entries : List Entry) :
    expandedIn (⟨.expanded v n, origin⟩ :: entries) = v.index :: expandedIn entries := rfl

@[simp] theorem expandedIn_reference (v : Visit) (origin : Option Origin) (entries : List Entry) :
    expandedIn (⟨.reference v, origin⟩ :: entries) = expandedIn entries := rfl

namespace Walks

variable {pending : List Pending} {seen after : IndexSet} {entries : List Entry}

/-- What a walk has seen is what it began with and what it has expanded. -/
theorem contains_after_iff (h : Walks g arrows pending seen entries after) (i : Index) :
    after.contains i = true ↔ seen.contains i = true ∨ i ∈ expandedIn entries := by
  induction h with
  | done => simp
  | started _ _ ih => exact ih
  | reference _ _ ih => exact ih
  | expanded _ _ _ ih =>
    rw [ih, IndexSet.contains_insert, expandedIn_expanded, List.mem_cons, Bool.or_eq_true, decide_eq_true_iff]
    rw [or_assoc, or_left_comm]

theorem contains_of_pending (h : Walks g arrows pending seen entries after) {p : Pending} (hp : p ∈ pending) :
    after.contains p.visit.index = true := by
  induction h with
  | done => simp at hp
  | started => simp at hp
  | reference hseen hrest ih =>
    rcases List.mem_cons.1 hp with rfl | hp
    · exact (hrest.contains_after_iff _).2 (Or.inl hseen)
    · exact ih hp
  | expanded hnew hnode hrest ih =>
    rcases List.mem_cons.1 hp with rfl | hp
    · exact (hrest.contains_after_iff _).2 (Or.inl (by simp))
    · exact ih (List.mem_append_right _ hp)

end Walks

theorem exists_walks_trees (hg : g.Charted mutable arrows) (roots : List Index) (seen : IndexSet)
    (hroots : ∀ i ∈ roots, ∃ n, g.node? i = some n) :
    ∃ entries, entries.map Entry.line = (g.trees mutable roots seen).1 ∧
      Walks g arrows [] seen entries (g.trees mutable roots seen).2 ∧
      ∀ i ∈ roots, (g.trees mutable roots seen).2.contains i = true := by
  induction roots generalizing seen with
  | nil => exact ⟨[], rfl, .done, by simp⟩
  | cons i roots ih =>
    have hrest : ∀ j ∈ roots, ∃ n, g.node? j = some n := fun j hj => hroots j (List.mem_cons_of_mem i hj)
    cases hseen : seen.contains i with
    | true =>
      obtain ⟨entries, hlines, hwalk, hall⟩ := ih seen hrest
      rw [trees, if_pos hseen]
      refine ⟨entries, hlines, hwalk, List.forall_mem_cons.2 ⟨?_, hall⟩⟩
      exact (hwalk.contains_after_iff i).2 (Or.inl hseen)
    | false =>
      have hroot : ∀ p ∈ [Pending.mk (.root i) none], ∃ n, g.node? p.visit.index = some n := by
        intro p hp
        rw [List.mem_singleton.1 hp]
        exact hroots i List.mem_cons_self
      obtain ⟨first, hfirst, htree⟩ := exists_walks hg [⟨.root i, none⟩] seen hroot
      obtain ⟨others, hothers, hwalk, hall⟩ := ih (g.walk mutable [.root i] seen).2 hrest
      rw [trees, if_neg (by simp [hseen])]
      refine ⟨first ++ others, ?_, (Walks.started hseen htree).append hwalk, List.forall_mem_cons.2 ⟨?_, hall⟩⟩
      · rw [List.map_append, hfirst, hothers]
        rfl
      · refine (hwalk.contains_after_iff i).2 (Or.inl ?_)
        exact htree.contains_of_pending List.mem_cons_self

/-- The whole forest is one walk, which sees every index of the graph. -/
theorem exists_walks_forest (hg : g.Charted mutable arrows) (hindices : ∀ i ∈ g.indices, ∃ n, g.node? i = some n)
    (bound : Index) :
    ∃ entries after, entries.map Entry.line = g.forest mutable bound ∧
      Walks g arrows [] (.withCapacity bound) entries after ∧ ∀ i ∈ g.indices, after.contains i = true := by
  obtain ⟨first, hfirst, hwalk, -⟩ := exists_walks_trees hg (g.indices.filter fun i => !(g.marked bound).contains i)
    (.withCapacity bound) fun i hi => hindices i (List.mem_filter.1 hi).1
  obtain ⟨others, hothers, hrest, hall⟩ := exists_walks_trees hg g.indices _ hindices
  refine ⟨first ++ others, _, ?_, hwalk.append hrest, hall⟩
  rw [List.map_append, hfirst, hothers]
  rfl

end Graph

end KnownObjects.Dump
