import KnownObjects.Proofs.Dump.Walk
import Mathlib.Data.List.Nodup

/-!
# The lines of a walk

Four facts about the lines that a walk prints, each by induction over its steps: no index is expanded twice, a bare reference stands below the line that expands its index, the lines that start from a field are as many as the fields of the objects expanded, and every such line stands below that of the field's owner.
-/

namespace KnownObjects.Dump.Graph

variable {g : Graph} {arrows : Index → List (Edge × Nat)} {pending : List Pending} {seen after : IndexSet}
  {entries : List Entry}

/-- The fields that lines start from. -/
def originsIn (entries : List Entry) : List Origin := entries.filterMap Entry.origin

def fieldsOf (arrows : Index → List (Edge × Nat)) (i : Index) : List Origin :=
  (arrows i).map fun arrow => ⟨i, arrow.2⟩

theorem filterMap_origin_offspring (v : Visit) :
    (offspring arrows v).filterMap Pending.origin = fieldsOf arrows v.index := by
  simp only [offspring, fieldsOf]
  rw [List.filterMap_map]
  exact congrFun (List.filterMap_eq_map (f := fun arrow : Edge × Nat => Origin.mk v.index arrow.2)) _

theorem mem_expandedIn_iff {i : Index} :
    i ∈ expandedIn entries ↔ ∃ x ∈ entries, ∃ v n, x.line = .expanded v n ∧ v.index = i := by
  simp only [expandedIn]
  rw [List.mem_filterMap]
  refine exists_congr fun x => and_congr_right fun _ => ?_
  cases x.line with
  | expanded v n => simp [Line.expanded?]
  | reference v => simp [Line.expanded?]

theorem nodup_flatMap_fieldsOf (hslots : ∀ i, ((arrows i).map Prod.snd).Nodup) {indices : List Index}
    (hindices : indices.Nodup) : (indices.flatMap (fieldsOf arrows)).Nodup := by
  rw [List.nodup_flatMap]
  constructor
  · intro i _
    have hfields : fieldsOf arrows i = ((arrows i).map Prod.snd).map (Origin.mk i) := by
      rw [List.map_map]
      rfl
    rw [hfields]
    exact (hslots i).map fun j k heq => (Origin.mk.inj heq).2
  · apply hindices.imp
    intro i j hne source hi hj
    obtain ⟨x, -, rfl⟩ := List.mem_map.1 hi
    obtain ⟨y, -, heq⟩ := List.mem_map.1 hj
    exact hne (Origin.mk.inj heq).1.symm

private theorem filterMap_cons_append {α β : Type} (f : α → Option β) (x : α) (l : List α) :
    (x :: l).filterMap f = (f x).toList ++ l.filterMap f := by
  cases hx : f x with
  | none => rw [List.filterMap_cons_none hx, Option.toList_none, List.nil_append]
  | some y => rw [List.filterMap_cons_some hx, Option.toList_some, List.singleton_append]

namespace Walks

/-- No index is expanded twice, and none that had been seen before. -/
theorem expandedIn_nodup (h : Walks g arrows pending seen entries after) :
    (expandedIn entries).Nodup ∧ ∀ i ∈ expandedIn entries, seen.contains i = false := by
  induction h with
  | done => simp
  | started _ _ ih => exact ih
  | reference _ _ ih => exact ih
  | @expanded p n pending seen after entries hnew hnode _ ih =>
    obtain ⟨hnodup, hunseen⟩ := ih
    have hothers : ∀ i ∈ expandedIn entries, i ≠ p.visit.index ∧ seen.contains i = false := by
      intro i hi
      have hi := hunseen i hi
      rw [IndexSet.contains_insert, Bool.or_eq_false_iff, decide_eq_false_iff_not] at hi
      exact hi
    rw [expandedIn_expanded]
    refine ⟨List.nodup_cons.2 ⟨fun hmem => (hothers _ hmem).1 rfl, hnodup⟩, List.forall_mem_cons.2 ⟨hnew, ?_⟩⟩
    intro i hi
    exact (hothers i hi).2

/-- A bare reference is to an index that had been seen before, or that is expanded above. -/
theorem referenced (h : Walks g arrows pending seen entries after) {before rest : List Entry} {v : Visit}
    {origin : Option Origin} (hsplit : entries = before ++ ⟨.reference v, origin⟩ :: rest) :
    seen.contains v.index = true ∨ v.index ∈ expandedIn before := by
  induction h generalizing before with
  | done => simp at hsplit
  | started _ _ ih => exact ih hsplit
  | reference hseen _ ih =>
    cases before with
    | nil =>
      obtain ⟨heq, -⟩ := List.cons.inj hsplit
      simp only [Entry.mk.injEq, Line.reference.injEq] at heq
      rw [← heq.1]
      exact Or.inl hseen
    | cons x before =>
      obtain ⟨rfl, hothers⟩ := List.cons.inj hsplit
      rw [expandedIn_reference]
      exact ih hothers
  | expanded _ _ _ ih =>
    cases before with
    | nil =>
      obtain ⟨heq, -⟩ := List.cons.inj hsplit
      simp at heq
    | cons x before =>
      obtain ⟨rfl, hothers⟩ := List.cons.inj hsplit
      rw [expandedIn_expanded, List.mem_cons]
      -- What the rest of the walk finds seen is what was seen before, or what this line expands.
      rcases ih hothers with hseen | hmem
      · rw [IndexSet.contains_insert, Bool.or_eq_true, decide_eq_true_iff] at hseen
        rcases hseen with heq | hseen
        · exact Or.inr (Or.inl heq)
        · exact Or.inl hseen
      · exact Or.inr (Or.inr hmem)

/-- The lines that start from fields are those pending, and one for each field of each object expanded. -/
theorem originsIn_perm (h : Walks g arrows pending seen entries after) :
    (originsIn entries).Perm
      (pending.filterMap Pending.origin ++ (expandedIn entries).flatMap (fieldsOf arrows)) := by
  induction h with
  | done => exact List.Perm.refl _
  | started _ _ ih => exact ih
  | @reference p pending seen after entries _ _ ih =>
    simp only [originsIn]
    rw [filterMap_cons_append, filterMap_cons_append Pending.origin, expandedIn_reference, List.append_assoc]
    exact ih.append_left _
  | @expanded p n pending seen after entries _ _ _ ih =>
    simp only [originsIn]
    rw [filterMap_cons_append, filterMap_cons_append Pending.origin, expandedIn_expanded, List.flatMap_cons,
      List.append_assoc]
    rw [List.filterMap_append, filterMap_origin_offspring, List.append_assoc] at ih
    exact (ih.trans (List.perm_append_comm_assoc _ _ _)).append_left _

/-- Where a line comes from: it was pending, it is the root of a tree, or its visit starts from a field of an object that is expanded above. -/
theorem entry_cases (h : Walks g arrows pending seen entries after) {before rest : List Entry} {x : Entry}
    (hsplit : entries = before ++ x :: rest) :
    ⟨x.line.visit, x.origin⟩ ∈ pending ∨ (∃ i, x.line.visit = .root i ∧ x.origin = none) ∨
      ∃ y ∈ before, ∃ v n, y.line = .expanded v n ∧ ⟨x.line.visit, x.origin⟩ ∈ offspring arrows v := by
  induction h generalizing before with
  | done => simp at hsplit
  | @started i seen after entries _ _ ih =>
    rcases ih hsplit with hroot | hcases
    · obtain ⟨hvisit, horigin⟩ := Pending.mk.inj (List.mem_singleton.1 hroot)
      exact Or.inr (Or.inl ⟨i, hvisit, horigin⟩)
    · exact Or.inr hcases
  | reference _ _ ih =>
    cases before with
    | nil =>
      obtain ⟨rfl, -⟩ := List.cons.inj hsplit
      exact Or.inl List.mem_cons_self
    | cons y before =>
      obtain ⟨-, hothers⟩ := List.cons.inj hsplit
      rcases ih hothers with hpending | hroot | ⟨z, hz, hchild⟩
      · exact Or.inl (List.mem_cons_of_mem _ hpending)
      · exact Or.inr (Or.inl hroot)
      · exact Or.inr (Or.inr ⟨z, List.mem_cons_of_mem y hz, hchild⟩)
  | @expanded p n pending seen after entries _ _ _ ih =>
    cases before with
    | nil =>
      obtain ⟨rfl, -⟩ := List.cons.inj hsplit
      exact Or.inl List.mem_cons_self
    | cons y before =>
      obtain ⟨rfl, hothers⟩ := List.cons.inj hsplit
      rcases ih hothers with hpending | hroot | ⟨z, hz, hchild⟩
      · rcases List.mem_append.1 hpending with hchild | hpending
        · exact Or.inr (Or.inr ⟨_, List.mem_cons_self, p.visit, n, rfl, hchild⟩)
        · exact Or.inl (List.mem_cons_of_mem _ hpending)
      · exact Or.inr (Or.inl hroot)
      · exact Or.inr (Or.inr ⟨z, List.mem_cons_of_mem _ hz, hchild⟩)

theorem node?_of_expanded (h : Walks g arrows pending seen entries after) {x : Entry} (hx : x ∈ entries) {v : Visit}
    {n : Node} (hline : x.line = .expanded v n) : g.node? v.index = some n := by
  induction h with
  | done => simp at hx
  | started _ _ ih => exact ih hx
  | reference _ _ ih =>
    rcases List.mem_cons.1 hx with rfl | hx
    · simp at hline
    · exact ih hx
  | expanded _ hnode _ ih =>
    rcases List.mem_cons.1 hx with rfl | hx
    · obtain ⟨rfl, rfl⟩ := Line.expanded.inj hline
      exact hnode
    · exact ih hx

/-! ### Walks that start with nothing pending -/

theorem originsIn_nodup (h : Walks g arrows [] seen entries after) (hslots : ∀ i, ((arrows i).map Prod.snd).Nodup) :
    (originsIn entries).Nodup := by
  rw [h.originsIn_perm.nodup_iff, List.filterMap_nil, List.nil_append]
  exact nodup_flatMap_fieldsOf hslots h.expandedIn_nodup.1

theorem origin_eq_none_iff (h : Walks g arrows [] seen entries after) {x : Entry} (hx : x ∈ entries) :
    x.origin = none ↔ x.line.visit.depth = 0 := by
  obtain ⟨before, rest, hsplit⟩ := List.append_of_mem hx
  rcases h.entry_cases hsplit with hpending | ⟨i, hvisit, horigin⟩ | ⟨y, -, v, n, -, hchild⟩
  · simp at hpending
  · simp [hvisit, horigin, Visit.root]
  · obtain ⟨arrow, -, heq⟩ := List.mem_map.1 hchild
    obtain ⟨hvisit, horigin⟩ := Pending.mk.inj heq
    simp [← hvisit, ← horigin, Edge.visit]

theorem label_of_origin_eq_none (h : Walks g arrows [] seen entries after) {x : Entry} (hx : x ∈ entries)
    (hnone : x.origin = none) : x.line.visit.label = "" := by
  obtain ⟨before, rest, hsplit⟩ := List.append_of_mem hx
  rcases h.entry_cases hsplit with hpending | ⟨i, hvisit, -⟩ | ⟨y, -, v, n, -, hchild⟩
  · simp at hpending
  · rw [hvisit]
    rfl
  · obtain ⟨arrow, -, heq⟩ := List.mem_map.1 hchild
    rw [hnone] at heq
    simp at heq

/-- A line that starts from a field stands below the line of the field's owner. -/
theorem exists_owner_of_origin (h : Walks g arrows [] seen entries after) {before rest : List Entry} {x : Entry}
    {source : Origin} (hsplit : entries = before ++ x :: rest) (horigin : x.origin = some source) :
    ∃ y ∈ before, ∃ v n e, y.line = .expanded v n ∧ v.index = source.owner ∧
      (e, source.slot) ∈ arrows source.owner ∧ x.line.visit = e.visit (v.depth + 1) := by
  rcases h.entry_cases hsplit with hpending | ⟨i, -, hnone⟩ | ⟨y, hy, v, n, hline, hchild⟩
  · simp at hpending
  · rw [horigin] at hnone
    simp at hnone
  · obtain ⟨⟨e, k⟩, harrow, heq⟩ := List.mem_map.1 hchild
    obtain ⟨hvisit, hsource⟩ := Pending.mk.inj heq
    rw [horigin] at hsource
    obtain rfl := Option.some.inj hsource
    exact ⟨y, hy, v, n, e, hline, rfl, harrow, hvisit.symm⟩

end Walks

end KnownObjects.Dump.Graph
