import KnownObjects.Proofs.Dump.Walk
import Mathlib.Data.List.Basic
import Mathlib.Logic.Relation

/-!
# Where trees start

A walk sees what it has seen before and what its pending visits lead to, and nothing else. So the trees from a row of roots see all that the roots lead to, and an index of the row becomes the root of a tree of its own unless one of the roots before it leads to it.

The forest has two such rows: first the indices without a mark, none of which anything leads to, and then all of them in their order. In the second row an index is a root if all that leads to it is marked and comes later. That is not only the lowest index of a cycle: it may be any index that a cycle leads to, as long as it is lower than those on the cycle.
-/

namespace KnownObjects.Dump

open Relation

/-- The index is expanded on a line that is not indented. -/
def Tops (lines : List Line) (i : Index) : Prop := ∃ v n, .expanded v n ∈ lines ∧ v.depth = 0 ∧ v.index = i

theorem tops_append_iff {first second : List Line} {i : Index} :
    Tops (first ++ second) i ↔ Tops first i ∨ Tops second i := by
  simp only [Tops]
  rw [← exists_or]
  refine exists_congr fun v => ?_
  rw [← exists_or]
  exact exists_congr fun n => by rw [List.mem_append, or_and_right]

namespace Graph

variable {g : Graph} {mutable : Bool} {visits : List Visit} {seen : IndexSet}

/-- A walk goes from one index to the other. -/
def Follows (g : Graph) (mutable : Bool) (i j : Index) : Prop :=
  ∃ n, g.node? i = some n ∧ ∃ e ∈ n.edges, (e.isFinal || mutable) = true ∧ e.target = j

/-- All steps that a walk can go. -/
def links (g : Graph) (mutable : Bool) : List (Index × Index) :=
  g.indices.flatMap fun i => ((g.node? i).map fun n =>
    (n.edges.filter fun e => e.isFinal || mutable).map fun e => (i, e.target)).getD []

theorem mem_links_iff {i j : Index} : (i, j) ∈ g.links mutable ↔ g.Follows mutable i j := by
  simp only [links, Follows]
  rw [List.mem_flatMap]
  constructor
  · rintro ⟨k, -, hlink⟩
    cases hnode : g.node? k with
    | none => simp [hnode] at hlink
    | some n =>
      rw [hnode, Option.map_some, Option.getD_some] at hlink
      obtain ⟨e, he, heq⟩ := List.mem_map.1 hlink
      obtain ⟨rfl, rfl⟩ := Prod.mk.inj heq
      obtain ⟨hedge, hfollowed⟩ := List.mem_filter.1 he
      exact ⟨n, hnode, e, hedge, hfollowed, rfl⟩
  · rintro ⟨n, hnode, e, he, hfollowed, rfl⟩
    refine ⟨i, mem_indices_of_node? hnode, ?_⟩
    rw [hnode, Option.map_some, Option.getD_some]
    exact List.mem_map_of_mem (List.mem_filter.2 ⟨he, hfollowed⟩)

/-- A walk never leaves the graph. -/
def Closed (g : Graph) (mutable : Bool) : Prop := ∀ i j, g.Follows mutable i j → ∃ n, g.node? j = some n

/-- What can be reached in one step from what was seen was seen as well, or is pending. -/
def Covers (g : Graph) (mutable : Bool) (seen : IndexSet) (visits : List Visit) : Prop :=
  ∀ i j, seen.contains i = true → g.Follows mutable i j → seen.contains j = true ∨ ∃ v ∈ visits, v.index = j

theorem mem_children_iff {n : Node} {depth : Nat} {v : Visit} :
    v ∈ n.children mutable depth ↔ ∃ e ∈ n.edges, (e.isFinal || mutable) = true ∧ e.visit depth = v := by
  simp only [Node.children, Edge.visit]
  rw [List.mem_map]
  exact exists_congr fun e => by rw [List.mem_filter, and_assoc]

theorem follows_iff_exists_child {i j : Index} {n : Node} (hnode : g.node? i = some n) (depth : Nat) :
    g.Follows mutable i j ↔ ∃ v ∈ n.children mutable depth, v.index = j := by
  constructor
  · rintro ⟨m, hm, e, he, hfollowed, rfl⟩
    obtain rfl := Option.some.inj (hnode.symm.trans hm)
    exact ⟨e.visit depth, mem_children_iff.2 ⟨e, he, hfollowed, rfl⟩, rfl⟩
  · rintro ⟨v, hv, rfl⟩
    obtain ⟨e, he, hfollowed, rfl⟩ := mem_children_iff.1 hv
    exact ⟨n, hnode, e, he, hfollowed, rfl⟩

theorem walk_of_absent {v : Visit} (hnew : seen.contains v.index = false) (hnode : g.node? v.index = none)
    (visits : List Visit) : g.walk mutable (v :: visits) seen = g.walk mutable visits seen := by
  rw [walk, dif_neg (by simp [hnew])]
  split
  · rfl
  · rename_i m hm
    rw [hnode] at hm
    simp at hm

/-! ### What is seen -/

/-- Whatever is seen leads only to what is seen and to what the pending visits lead to. -/
theorem Covers.reaches (h : g.Covers mutable seen visits) {i j : Index} (hi : seen.contains i = true)
    (hpath : ReflTransGen (g.Follows mutable) i j) :
    seen.contains j = true ∨ ∃ v ∈ visits, ReflTransGen (g.Follows mutable) v.index j := by
  induction hpath with
  | refl => exact Or.inl hi
  | tail _ hstep ih =>
    rcases ih with hseen | ⟨v, hv, hreached⟩
    · rcases h _ _ hseen hstep with hseen | ⟨v, hv, rfl⟩
      · exact Or.inl hseen
      · exact Or.inr ⟨v, hv, .refl⟩
    · exact Or.inr ⟨v, hv, hreached.tail hstep⟩

theorem Covers.reference {v : Visit} (h : g.Covers mutable seen (v :: visits)) (hv : seen.contains v.index = true) :
    g.Covers mutable seen visits := by
  intro i j hi hstep
  rcases h i j hi hstep with hseen | ⟨w, hw, rfl⟩
  · exact Or.inl hseen
  · rcases List.mem_cons.1 hw with rfl | hw
    · exact Or.inl hv
    · exact Or.inr ⟨w, hw, rfl⟩

theorem Covers.expanded {v : Visit} {n : Node} (h : g.Covers mutable seen (v :: visits))
    (hnode : g.node? v.index = some n) (depth : Nat) :
    g.Covers mutable (seen.insert v.index).2 (n.children mutable depth ++ visits) := by
  intro i j hi hstep
  simp only [IndexSet.contains_insert, Bool.or_eq_true, decide_eq_true_iff] at hi ⊢
  rcases hi with rfl | hi
  · obtain ⟨w, hw, hindex⟩ := (follows_iff_exists_child hnode depth).1 hstep
    exact Or.inr ⟨w, List.mem_append_left _ hw, hindex⟩
  · rcases h i j hi hstep with hseen | ⟨w, hw, rfl⟩
    · exact Or.inl (Or.inr hseen)
    · rcases List.mem_cons.1 hw with rfl | hw
      · exact Or.inl (Or.inl rfl)
      · exact Or.inr ⟨w, List.mem_append_right _ hw, rfl⟩

/-- Besides what it found seen, a walk sees what its pending visits lead to. -/
theorem contains_walk_iff (hg : g.Closed mutable) (hvisits : ∀ v ∈ visits, ∃ n, g.node? v.index = some n)
    (hcovers : g.Covers mutable seen visits) (i : Index) :
    (g.walk mutable visits seen).2.contains i = true ↔
      seen.contains i = true ∨ ∃ v ∈ visits, ReflTransGen (g.Follows mutable) v.index i := by
  induction visits, seen using Graph.walk.induct g mutable with
  | case1 seen =>
    rw [walk]
    simp
  | case2 v visits seen hseen ih =>
    obtain ⟨-, hrest⟩ := List.forall_mem_cons.1 hvisits
    have hcovers' := hcovers.reference hseen
    rw [walk_of_seen hseen, ih hrest hcovers', List.exists_mem_cons_iff]
    constructor
    · exact Or.imp_right Or.inr
    · rintro (hi | hpath | hpending)
      · exact Or.inl hi
      · exact hcovers'.reaches hseen hpath
      · exact Or.inr hpending
  | case3 v visits seen hseen hnode ih =>
    obtain ⟨n, hn⟩ := hvisits v List.mem_cons_self
    rw [hn] at hnode
    simp at hnode
  | case4 v visits seen hseen n hnode ih =>
    obtain ⟨-, hrest⟩ := List.forall_mem_cons.1 hvisits
    have hall : ∀ w ∈ n.children mutable (v.depth + 1) ++ visits, ∃ m, g.node? w.index = some m := by
      intro w hw
      rcases List.mem_append.1 hw with hw | hw
      · exact hg v.index w.index ((follows_iff_exists_child hnode _).2 ⟨w, hw, rfl⟩)
      · exact hrest w hw
    rw [walk_of_unseen (Bool.eq_false_iff.2 hseen) hnode, ih hall (hcovers.expanded hnode _), List.exists_mem_cons_iff]
    simp only [IndexSet.contains_insert, Bool.or_eq_true, decide_eq_true_iff, List.mem_append]
    constructor
    · rintro ((rfl | hi) | ⟨w, hw | hw, hpath⟩)
      · exact Or.inr (Or.inl .refl)
      · exact Or.inl hi
      · exact Or.inr (Or.inl (hpath.head ((follows_iff_exists_child hnode _).2 ⟨w, hw, rfl⟩)))
      · exact Or.inr (Or.inr ⟨w, hw, hpath⟩)
    · rintro (hi | hpath | ⟨w, hw, hpath⟩)
      · exact Or.inl (Or.inr hi)
      · rcases hpath.cases_head with heq | ⟨j, hstep, hpath⟩
        · exact Or.inl (Or.inl heq.symm)
        · obtain ⟨w, hw, rfl⟩ := (follows_iff_exists_child hnode (v.depth + 1)).1 hstep
          exact Or.inr ⟨w, Or.inl hw, hpath⟩
      · exact Or.inr ⟨w, Or.inr hw, hpath⟩

theorem contains_trees_iff (hg : g.Closed mutable) {roots : List Index}
    (hroots : ∀ r ∈ roots, ∃ n, g.node? r = some n) (hcovers : g.Covers mutable seen []) (i : Index) :
    (g.trees mutable roots seen).2.contains i = true ↔
      seen.contains i = true ∨ ∃ r ∈ roots, ReflTransGen (g.Follows mutable) r i := by
  induction roots generalizing seen with
  | nil => simp [trees]
  | cons r roots ih =>
    obtain ⟨hroot, hrest⟩ := List.forall_mem_cons.1 hroots
    rw [List.exists_mem_cons_iff]
    cases hseen : seen.contains r with
    | true =>
      rw [trees, if_pos hseen, ih hrest hcovers]
      constructor
      · exact Or.imp_right Or.inr
      · rintro (hi | hpath | hothers)
        · exact Or.inl hi
        · rcases hcovers.reaches hseen hpath with hi | ⟨v, hv, -⟩
          · exact Or.inl hi
          · simp at hv
        · exact Or.inr hothers
    | false =>
      have hwalk : ∀ j, (g.walk mutable [.root r] seen).2.contains j = true ↔
          seen.contains j = true ∨ ReflTransGen (g.Follows mutable) r j := by
        intro j
        rw [contains_walk_iff hg (by simpa [Visit.root] using hroot)
          fun k l hk hstep => (hcovers k l hk hstep).imp_right (by simp)]
        simp [Visit.root]
      have hafter : g.Covers mutable (g.walk mutable [.root r] seen).2 [] := by
        intro k l hk hstep
        rw [hwalk] at hk ⊢
        rcases hk with hk | hpath
        · exact (hcovers k l hk hstep).imp_left Or.inl
        · exact Or.inl (Or.inr (hpath.tail hstep))
      rw [trees, if_neg (by simp [hseen])]
      rw [ih hrest hafter, hwalk, or_assoc]

/-! ### Roots -/

theorem trees_append (first second : List Index) (seen : IndexSet) :
    g.trees mutable (first ++ second) seen =
      ((g.trees mutable first seen).1 ++ (g.trees mutable second (g.trees mutable first seen).2).1,
        (g.trees mutable second (g.trees mutable first seen).2).2) := by
  induction first generalizing seen with
  | nil => simp [trees]
  | cons r first ih =>
    rw [List.cons_append, trees, trees]
    split
    · exact ih seen
    · dsimp only
      rw [ih, List.append_assoc]

/-- A line that is not indented belongs to a visit that was pending from the start. -/
theorem visit_mem_of_mem_walk {line : Line} (hline : line ∈ (g.walk mutable visits seen).1) :
    line.visit ∈ visits ∨ 0 < line.visit.depth := by
  induction visits, seen using Graph.walk.induct g mutable with
  | case1 seen =>
    rw [walk] at hline
    simp at hline
  | case2 v visits seen hseen ih =>
    rw [walk_of_seen hseen] at hline
    rcases List.mem_cons.1 hline with rfl | hline
    · exact Or.inl List.mem_cons_self
    · exact (ih hline).imp_left (List.mem_cons_of_mem v)
  | case3 v visits seen hseen hnode ih =>
    rw [walk_of_absent (Bool.eq_false_iff.2 hseen) hnode] at hline
    exact (ih hline).imp_left (List.mem_cons_of_mem v)
  | case4 v visits seen hseen n hnode ih =>
    rw [walk_of_unseen (Bool.eq_false_iff.2 hseen) hnode] at hline
    rcases List.mem_cons.1 hline with rfl | hline
    · exact Or.inl List.mem_cons_self
    · rcases ih hline with hpending | hdeep
      · rcases List.mem_append.1 hpending with hchild | hpending
        · obtain ⟨e, -, -, heq⟩ := mem_children_iff.1 hchild
          right
          rw [← heq]
          exact Nat.succ_pos _
        · exact Or.inl (List.mem_cons_of_mem v hpending)
      · exact Or.inr hdeep

theorem eq_of_tops_walk {r i : Index} (h : Tops (g.walk mutable [.root r] seen).1 i) : i = r := by
  obtain ⟨v, n, hline, hdepth, rfl⟩ := h
  rcases visit_mem_of_mem_walk hline with hroot | hdeep
  · exact congrArg Visit.index (List.mem_singleton.1 hroot)
  · exact absurd hdepth (Nat.ne_of_gt hdeep)

theorem mem_of_tops_trees {roots : List Index} {i : Index} (h : Tops (g.trees mutable roots seen).1 i) : i ∈ roots := by
  induction roots generalizing seen with
  | nil =>
    obtain ⟨v, n, hline, -⟩ := h
    simp [trees] at hline
  | cons r roots ih =>
    rw [trees] at h
    split at h
    · exact List.mem_cons_of_mem r (ih h)
    · rcases tops_append_iff.1 h with hfirst | hothers
      · exact List.mem_cons.2 (Or.inl (eq_of_tops_walk hfirst))
      · exact List.mem_cons_of_mem r (ih hothers)

/-- An index is a root unless it was seen when its turn came. -/
theorem tops_trees_iff {before rest : List Index} {i : Index} {n : Node} (hnode : g.node? i = some n)
    (hbefore : i ∉ before) (hrest : i ∉ rest) :
    Tops (g.trees mutable (before ++ i :: rest) seen).1 i ↔ (g.trees mutable before seen).2.contains i = false := by
  rw [trees_append, tops_append_iff, trees]
  cases hseen : (g.trees mutable before seen).2.contains i with
  | true =>
    rw [if_pos rfl]
    simp only [Bool.true_eq_false, iff_false, not_or]
    exact ⟨fun h => hbefore (mem_of_tops_trees h), fun h => hrest (mem_of_tops_trees h)⟩
  | false =>
    rw [if_neg (by simp)]
    simp only [iff_true]
    refine Or.inr (tops_append_iff.2 (Or.inl ⟨.root i, n, ?_, rfl, rfl⟩))
    rw [walk_of_unseen hseen hnode]
    exact List.mem_cons_self

/-! ### The two rows of a forest -/

section

variable (hsize : g.nodes.length < 4294967295)

include hsize

theorem node?_ofNat_succ {k : Nat} (hk : k < g.nodes.length) : g.node? (.ofNat (k + 1)) = g.nodes[k]? := by
  simp only [node?]
  rw [Index.toNat_ofNat (by omega)]

theorem mem_nodes_iff {n : Node} : n ∈ g.nodes ↔ ∃ i, g.node? i = some n := by
  constructor
  · intro hn
    obtain ⟨k, hk, rfl⟩ := List.getElem_of_mem hn
    exact ⟨.ofNat (k + 1), by rw [node?_ofNat_succ hsize hk, List.getElem?_eq_getElem hk]⟩
  · rintro ⟨i, hnode⟩
    unfold node? at hnode
    split at hnode
    · simp at hnode
    · exact List.mem_of_getElem? hnode

theorem exists_node_of_mem_indices {i : Index} (hi : i ∈ g.indices) : ∃ n, g.node? i = some n := by
  obtain ⟨k, hk, rfl⟩ := List.mem_map.1 hi
  rw [List.mem_range] at hk
  exact ⟨g.nodes[k], by rw [node?_ofNat_succ hsize hk, List.getElem?_eq_getElem hk]⟩

theorem indices_pairwise : g.indices.Pairwise (· < ·) := by
  simp only [indices]
  rw [List.pairwise_map]
  refine List.Pairwise.imp_of_mem ?_ List.pairwise_lt_range
  intro k m hk hm hlt
  rw [List.mem_range] at hk hm
  show (Index.ofNat (k + 1)).toNat < (Index.ofNat (m + 1)).toNat
  rw [Index.toNat_ofNat (by omega), Index.toNat_ofNat (by omega)]
  omega

omit hsize in
private theorem contains_foldl_insert (targets : List Index) (seen : IndexSet) (i : Index) :
    (targets.foldl (fun s j => (s.insert j).2) seen).contains i = true ↔ seen.contains i = true ∨ i ∈ targets := by
  induction targets generalizing seen with
  | nil => simp
  | cons j targets ih =>
    rw [List.foldl_cons, ih, IndexSet.contains_insert, Bool.or_eq_true, decide_eq_true_iff, List.mem_cons]
    rw [or_assoc, or_left_comm]

/-- The marks are on what some final edge leads to. -/
theorem contains_marked_iff (bound i : Index) : (g.marked bound).contains i = true ↔ ∃ j, g.Follows false j i := by
  simp only [marked]
  rw [contains_foldl_insert, IndexSet.contains_withCapacity, List.mem_flatMap]
  simp only [Bool.false_eq_true, false_or]
  constructor
  · rintro ⟨n, hn, htarget⟩
    obtain ⟨j, hnode⟩ := (mem_nodes_iff hsize).1 hn
    obtain ⟨e, he, rfl⟩ := List.mem_map.1 htarget
    obtain ⟨hedge, hfinal⟩ := List.mem_filter.1 he
    exact ⟨j, n, hnode, e, hedge, by rw [hfinal, Bool.true_or], rfl⟩
  · rintro ⟨j, n, hnode, e, he, hfinal, rfl⟩
    rw [Bool.or_false] at hfinal
    exact ⟨n, (mem_nodes_iff hsize).2 ⟨j, hnode⟩, List.mem_map_of_mem (List.mem_filter.2 ⟨he, hfinal⟩)⟩

omit hsize in
theorem covers_withCapacity (bound : Index) : g.Covers mutable (.withCapacity bound) [] := by
  intro i j hi
  simp at hi

theorem mem_unmarked_iff (bound : Index) {r : Index} : r ∈ (g.indices.filter fun i => !(g.marked bound).contains i) ↔
    r ∈ g.indices ∧ ∀ j, ¬g.Follows false j r := by
  rw [List.mem_filter, Bool.not_eq_true', ← Bool.not_eq_true, contains_marked_iff hsize, not_exists]

/-- In the first row, every index without a mark is a root. -/
theorem tops_unmarked_iff (hg : g.Closed false) (bound : Index) {i : Index} (hi : i ∈ g.indices) :
    Tops (g.trees false (g.indices.filter fun i => !(g.marked bound).contains i) (.withCapacity bound)).1 i ↔
      ∀ j, ¬g.Follows false j i := by
  constructor
  · intro htops
    exact ((mem_unmarked_iff hsize bound).1 (mem_of_tops_trees htops)).2
  · intro hnone
    obtain ⟨before, rest, hrow⟩ := List.append_of_mem ((mem_unmarked_iff hsize bound).2 ⟨hi, hnone⟩)
    obtain ⟨n, hnode⟩ := exists_node_of_mem_indices hsize hi
    have hsorted := (indices_pairwise hsize).filter fun i => !(g.marked bound).contains i
    rw [hrow] at hsorted
    obtain ⟨-, hrest, hbefore⟩ := List.pairwise_append.1 hsorted
    have hfresh : i ∉ before := fun hmem => Nat.lt_irrefl _ (hbefore i hmem i List.mem_cons_self)
    have hlater : i ∉ rest := fun hmem => Nat.lt_irrefl _ ((List.pairwise_cons.1 hrest).1 i hmem)
    rw [hrow, tops_trees_iff hnode hfresh hlater, ← Bool.not_eq_true]
    have hnodes : ∀ r ∈ before, ∃ n, g.node? r = some n := by
      intro r hr
      refine exists_node_of_mem_indices hsize ((mem_unmarked_iff hsize bound).1 ?_).1
      rw [hrow]
      exact List.mem_append_left _ hr
    rw [contains_trees_iff hg hnodes (covers_withCapacity bound), IndexSet.contains_withCapacity]
    rintro (hseen | ⟨r, hr, hpath⟩)
    · simp at hseen
    · rcases hpath.cases_tail with rfl | ⟨j, -, hstep⟩
      · exact hfresh hr
      · exact hnone j hstep

/-- In the second row, an index is a root if nothing that leads to it was seen before or comes earlier. -/
theorem tops_indices_iff (hg : g.Closed mutable) (hcovers : g.Covers mutable seen []) {i : Index} (hi : i ∈ g.indices) :
    Tops (g.trees mutable g.indices seen).1 i ↔
      ∀ j, ReflTransGen (g.Follows mutable) j i → seen.contains j = false ∧ i ≤ j := by
  obtain ⟨before, rest, hrow⟩ := List.append_of_mem hi
  obtain ⟨n, hnode⟩ := exists_node_of_mem_indices hsize hi
  have hsorted := indices_pairwise hsize
  rw [hrow] at hsorted
  obtain ⟨-, hrest, hbefore⟩ := List.pairwise_append.1 hsorted
  have hfresh : i ∉ before := fun hmem => Nat.lt_irrefl _ (hbefore i hmem i List.mem_cons_self)
  have hlater := (List.pairwise_cons.1 hrest).1
  have hnodes : ∀ r ∈ before, ∃ n, g.node? r = some n :=
    fun r hr => exists_node_of_mem_indices hsize (hrow ▸ List.mem_append_left _ hr)
  rw [hrow, tops_trees_iff hnode hfresh fun hmem => Nat.lt_irrefl _ (hlater i hmem)]
  rw [← Bool.not_eq_true, contains_trees_iff hg hnodes hcovers, not_or, not_exists]
  constructor
  · rintro ⟨hunseen, hunreached⟩ j hpath
    have hj : seen.contains j = false := by
      rw [← Bool.not_eq_true]
      intro hj
      rcases hcovers.reaches hj hpath with hseen | ⟨v, hv, -⟩
      · exact hunseen hseen
      · simp at hv
    refine ⟨hj, Nat.le_of_not_lt fun hlt => ?_⟩
    rcases hpath.cases_head with rfl | ⟨k, ⟨m, hm, -⟩, -⟩
    · exact Nat.lt_irrefl _ hlt
    · have hmem := mem_indices_of_node? hm
      rw [hrow] at hmem
      rcases List.mem_append.1 hmem with hmem | hmem
      · exact hunreached j ⟨hmem, hpath⟩
      · rcases List.mem_cons.1 hmem with rfl | hmem
        · exact Nat.lt_irrefl _ hlt
        · exact Nat.lt_asymm hlt (hlater j hmem)
  · intro h
    refine ⟨by simp [(h i .refl).1], ?_⟩
    rintro r ⟨hr, hpath⟩
    exact Nat.not_lt_of_le (h r hpath).2 (hbefore r hr i List.mem_cons_self)

/-- The first row sees what is led to by an index without a mark. -/
theorem contains_trees_unmarked_iff (hg : g.Closed false) (bound j : Index) :
    (g.trees false (g.indices.filter fun i => !(g.marked bound).contains i) (.withCapacity bound)).2.contains j = true ↔
      ∃ r, r ∈ g.indices ∧ (∀ k, ¬g.Follows false k r) ∧ ReflTransGen (g.Follows false) r j := by
  have hnodes : ∀ r ∈ g.indices.filter fun i => !(g.marked bound).contains i, ∃ n, g.node? r = some n :=
    fun r hr => exists_node_of_mem_indices hsize (List.mem_filter.1 hr).1
  rw [contains_trees_iff hg hnodes (covers_withCapacity bound), IndexSet.contains_withCapacity]
  simp only [Bool.false_eq_true, false_or, mem_unmarked_iff hsize, and_assoc]

theorem covers_trees_unmarked (hg : g.Closed false) (bound : Index) : g.Covers false
    (g.trees false (g.indices.filter fun i => !(g.marked bound).contains i) (.withCapacity bound)).2 [] := by
  intro j k hj hstep
  obtain ⟨r, hr, hnone, hpath⟩ := (contains_trees_unmarked_iff hsize hg bound j).1 hj
  exact Or.inl ((contains_trees_unmarked_iff hsize hg bound k).2 ⟨r, hr, hnone, hpath.tail hstep⟩)

/-- The roots of a forest: what no final edge leads to, and what is lower than all that leads to it, if all of that is marked. -/
theorem tops_forest_iff (hg : g.Closed false) (bound : Index) {i : Index} (hi : i ∈ g.indices) :
    Tops (g.forest false bound) i ↔ (∀ j, ¬g.Follows false j i) ∨
      ∀ j, ReflTransGen (g.Follows false) j i → (∃ k, g.Follows false k j) ∧ i ≤ j := by
  have hseen := contains_trees_unmarked_iff hsize hg bound
  have hcovers := covers_trees_unmarked hsize hg bound
  simp only [forest]
  rw [tops_append_iff, tops_unmarked_iff hsize hg bound hi, tops_indices_iff hsize hg hcovers hi]
  apply or_congr_right
  constructor
  · intro h j hpath
    refine ⟨not_forall_not.1 fun hnone => ?_, (h j hpath).2⟩
    have hj : j ∈ g.indices := by
      rcases hpath.cases_head with rfl | ⟨k, ⟨n, hnode, -⟩, -⟩
      · exact hi
      · exact mem_indices_of_node? hnode
    have hseen' := (hseen j).2 ⟨j, hj, hnone, .refl⟩
    rw [(h j hpath).1] at hseen'
    simp at hseen'
  · intro h j hpath
    refine ⟨?_, (h j hpath).2⟩
    rw [← Bool.not_eq_true, hseen]
    rintro ⟨r, -, hnone, hfirst⟩
    obtain ⟨k, hstep⟩ := (h r (hfirst.trans hpath)).1
    exact hnone k hstep

end

end Graph

end KnownObjects.Dump
