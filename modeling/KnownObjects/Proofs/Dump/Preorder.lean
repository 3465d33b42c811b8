import KnownObjects.Proofs.Dump.Promotion

/-!
# A tree as a recursion

A tree is walked with a stack, onto which all children of an object are put before the first of them is visited. Whether a child was seen already is only asked when it is taken off again. `Site.tree` is the recursion that this stands for: it goes through the fields of an object in the order of their declaration, and is done with what one field leads to before it turns to the next.

The recursion is written over table and heap alone, spells its lines out by itself, and ends because it leaves one known object less to be seen whenever it goes down. What it has seen must never become less on the way, so each result carries the proof of that. That the two agree is said of a stack on which other visits are pending below: the visits on top are walked as the recursion goes through them, and then the walk takes up the pending ones with what the recursion has seen.
-/

namespace KnownObjects

open Dump Dump.Graph

namespace Site

/-- The known object at an index. -/
def object? (s : Site) (i : Index) : Option Object :=
  match s.table.slots.get? i with
  | some (.ref h) => ((s.heap.resolve h).bind s.heap.object).toOption
  | _ => none

/-- How many indices of known objects are still to be seen. -/
def unseen (s : Site) (seen : IndexSet) : Nat :=
  (s.table.slots.refs.map Prod.fst).countP fun i => !seen.contains i

theorem exists_handle_of_object? {s : Site} {i : Index} {o : Object} (h : s.object? i = some o) :
    ∃ handle, s.table.slots.get? i = some (.ref handle) := by
  unfold object? at h
  split at h
  · exact ⟨_, ‹_›⟩
  · simp at h

theorem object?_of_known {s : Site} {i : Index} {o : Object} (h : s.Known i o) : s.object? i = some o := by
  obtain ⟨handle, hget, hresolve, hobject⟩ := h
  simp only [object?]
  rw [hget]
  simp only [hresolve, Except.bind, hobject, Except.toOption]

theorem unseen_insert_lt {s : Site} {seen : IndexSet} {i : Index} {o : Object}
    (hobject : s.object? i = some o) (hnew : seen.contains i = false) :
    s.unseen (seen.insert i).2 < s.unseen seen := by
  obtain ⟨handle, hget⟩ := exists_handle_of_object? hobject
  exact countP_insert_lt (List.mem_map_of_mem (SlotStore.mem_refs_of_get? hget)) hnew

/-- The lowest index whose handle leads to an address. -/
def place? (s : Site) (a : Address) : Option Index :=
  (s.table.slots.handles.findIdx? fun h => (s.heap.resolve h).toOption == some a).map fun k => .ofNat (k + 1)

/-- The visit that a field leads to: the field must be a reference that is final, unless mutable fields count as well, and hold a known object. -/
def visit? (s : Site) (mutable : Bool) (depth : Nat) : Field × Value → Option Visit
  | (f, .ref a) =>
    if f.isReference && (f.isFinal || mutable) then
      (s.place? a).map fun i => ⟨depth, f.name ++ (if f.isFinal then " is " else " = "), i⟩
    else none
  | _ => none

/-- What a recursion prints, and what it has seen at its end. -/
structure Traversal (s : Site) (seen : IndexSet) where
  lines : List String
  after : IndexSet
  unseen_le : s.unseen after ≤ s.unseen seen

mutual

/-- A bare reference if the object was seen before. Otherwise it is marked as seen, and its line is followed by what its fields lead to, one level deeper. -/
def tree (s : Site) (mutable : Bool) (v : Visit) (seen : IndexSet) : s.Traversal seen :=
  if hseen : seen.contains v.index then ⟨[v.referenceSpelling], seen, Nat.le_refl _⟩
  else
    match hobject : s.object? v.index with
    -- A field leads to known objects only, so this happens at most at a root.
    | none => ⟨[], seen, Nat.le_refl _⟩
    | some o =>
      have hless := unseen_insert_lt hobject (Bool.eq_false_iff.2 hseen)
      let below := s.branches mutable (v.depth + 1) (shownOf o) (seen.insert v.index).2
      ⟨v.expandedSpelling o :: below.lines, below.after, Nat.le_trans below.unseen_le (Nat.le_of_lt hless)⟩
termination_by (s.unseen seen, 0)
decreasing_by exact Prod.Lex.left _ _ hless

/-- The trees that the fields of an object lead to, in order. -/
def branches (s : Site) (mutable : Bool) (depth : Nat) (fields : List (Field × Value)) (seen : IndexSet) :
    s.Traversal seen :=
  match fields with
  | [] => ⟨[], seen, Nat.le_refl _⟩
  | field :: rest =>
    match s.visit? mutable depth field with
    | none => s.branches mutable depth rest seen
    | some v =>
      let first := s.tree mutable v seen
      let others := s.branches mutable depth rest first.after
      ⟨first.lines ++ others.lines, others.after, Nat.le_trans others.unseen_le first.unseen_le⟩
termination_by (s.unseen seen, fields.length + 1)
decreasing_by
  · exact Prod.Lex.right _ (Nat.lt_succ_self _)
  · exact Prod.Lex.right _ (Nat.succ_pos _)
  · exact Prod.Lex.right' _ first.unseen_le (Nat.lt_succ_self _)

end

theorem tree_of_unseen {s : Site} (mutable : Bool) {v : Visit} {seen : IndexSet} {o : Object}
    (hnew : seen.contains v.index = false) (hobject : s.object? v.index = some o) :
    let below := s.branches mutable (v.depth + 1) (shownOf o) (seen.insert v.index).2
    (s.tree mutable v seen).lines = v.expandedSpelling o :: below.lines ∧ (s.tree mutable v seen).after = below.after := by
  rw [tree, dif_neg (by simp [hnew])]
  split
  · rename_i hnone
    rw [hobject] at hnone
    simp at hnone
  · rename_i p hp
    obtain rfl := Option.some.inj (hobject.symm.trans hp)
    exact ⟨rfl, rfl⟩

theorem tree_of_absent {s : Site} (mutable : Bool) {v : Visit} {seen : IndexSet}
    (hnew : seen.contains v.index = false) (hobject : s.object? v.index = none) :
    (s.tree mutable v seen).lines = [] ∧ (s.tree mutable v seen).after = seen := by
  rw [tree, dif_neg (by simp [hnew])]
  split
  · exact ⟨rfl, rfl⟩
  · rename_i o ho
    rw [hobject] at ho
    simp at ho

theorem branches_of_none {s : Site} {mutable : Bool} {depth : Nat} {field : Field × Value} (rest : List (Field × Value))
    (seen : IndexSet) (hvisit : s.visit? mutable depth field = none) :
    s.branches mutable depth (field :: rest) seen = s.branches mutable depth rest seen := by
  rw [branches]
  simp only [hvisit]

theorem branches_of_some {s : Site} {mutable : Bool} {depth : Nat} {field : Field × Value} {v : Visit}
    (rest : List (Field × Value)) (seen : IndexSet) (hvisit : s.visit? mutable depth field = some v) :
    let first := s.tree mutable v seen
    let others := s.branches mutable depth rest first.after
    (s.branches mutable depth (field :: rest) seen).lines = first.lines ++ others.lines ∧
      (s.branches mutable depth (field :: rest) seen).after = others.after := by
  rw [branches]
  simp only [hvisit, and_self]

end Site

/-! ### The top of a stack -/

namespace Dump.Graph

/-- With any other visits pending below, these are walked first, and give these lines. -/
def Prints (g : Graph) (mutable : Bool) (visits : List Visit) (seen : IndexSet) (lines : List String)
    (after : IndexSet) : Prop :=
  ∀ pending, (g.walk mutable (visits ++ pending) seen).1.map Line.text =
      lines ++ (g.walk mutable pending after).1.map Line.text ∧
    (g.walk mutable (visits ++ pending) seen).2 = (g.walk mutable pending after).2

variable {g : Graph} {mutable : Bool} {seen middle after : IndexSet} {v : Visit}

theorem Prints.nil : g.Prints mutable [] seen [] seen := fun _ => ⟨rfl, rfl⟩

/-- With nothing pending below, that is all there is. -/
theorem Prints.walk_eq {visits : List Visit} {lines : List String} (h : g.Prints mutable visits seen lines after) :
    (g.walk mutable visits seen).1.map Line.text = lines ∧ (g.walk mutable visits seen).2 = after := by
  obtain ⟨htexts, hafter⟩ := h []
  rw [walk, List.append_nil, List.map_nil, List.append_nil] at htexts
  rw [walk, List.append_nil] at hafter
  exact ⟨htexts, hafter⟩

theorem Prints.append {visits others : List Visit} {lines rest : List String}
    (hfirst : g.Prints mutable visits seen lines middle) (hothers : g.Prints mutable others middle rest after) :
    g.Prints mutable (visits ++ others) seen (lines ++ rest) after := by
  intro pending
  obtain ⟨htexts, hseen⟩ := hfirst (others ++ pending)
  obtain ⟨htexts', hseen'⟩ := hothers pending
  rw [List.append_assoc, htexts, htexts', hseen, hseen', List.append_assoc]
  exact ⟨rfl, rfl⟩

theorem Prints.reference (hseen : seen.contains v.index = true) :
    g.Prints mutable [v] seen [v.referenceSpelling] seen := by
  intro pending
  rw [List.singleton_append, walk_of_seen hseen, List.map_cons, text_reference_eq_spelling]
  exact ⟨rfl, rfl⟩

theorem Prints.absent (hnew : seen.contains v.index = false) (hnode : g.node? v.index = none) :
    g.Prints mutable [v] seen [] seen := by
  intro pending
  rw [List.singleton_append, walk_of_absent hnew hnode]
  exact ⟨rfl, rfl⟩

/-- The children of an object come before all that was pending. -/
theorem Prints.expanded {n : Node} {lines : List String} (hnew : seen.contains v.index = false)
    (hnode : g.node? v.index = some n)
    (hbelow : g.Prints mutable (n.children mutable (v.depth + 1)) (seen.insert v.index).2 lines after) :
    g.Prints mutable [v] seen ((Line.expanded v n).text :: lines) after := by
  intro pending
  obtain ⟨htexts, hafter⟩ := hbelow pending
  rw [List.singleton_append, walk_of_unseen hnew hnode, List.map_cons, htexts, hafter]
  exact ⟨rfl, rfl⟩

end Dump.Graph

/-! ### The recursion on a table whose handles resolve -/

namespace Site

variable {s : Site} {objects : List Object} {mutable : Bool}

namespace Shows

theorem object?_eq (hs : s.Shows objects) (i : Index) : s.object? i = objectAt? objects i := by
  cases hobject : objectAt? objects i with
  | some o => exact object?_of_known (hs.known_iff.2 hobject)
  | none =>
    cases hfound : s.object? i with
    | none => rfl
    | some o =>
      obtain ⟨handle, hget⟩ := exists_handle_of_object? hfound
      obtain ⟨k, hi, hk⟩ := SlotStore.getElem?_of_get? hget
      have hlt : k < objects.length := hs.length_eq ▸ (List.getElem?_eq_some_iff.1 hk).1
      have hsome := objectAt?_eq_some_iff.2 ⟨k, hi, List.getElem?_eq_getElem hlt⟩
      rw [hobject] at hsome
      simp at hsome

theorem place?_eq (hs : s.Shows objects) (a : Address) : s.place? a = placeOf? objects a := by
  have hsame : ∀ {handles : List Handle} {objects : List Object}, List.Forall₂ s.heap.LeadsTo handles objects →
      handles.findIdx? (fun h => (s.heap.resolve h).toOption == some a) = objects.findIdx? fun o => o.address == a := by
    intro handles objects hbehind
    induction hbehind with
    | nil => rfl
    | cons hleads _ ih =>
      rw [List.findIdx?_cons, List.findIdx?_cons, hleads.1, ih]
      rfl
  exact congrArg (Option.map fun k => Index.ofNat (k + 1)) (hsame hs.behind)

theorem visit?_eq (hs : s.Shows objects) (depth : Nat) (field : Field × Value) :
    s.visit? mutable depth field =
      ((edgeOf? objects field).filter fun e => e.isFinal || mutable).map fun e => e.visit depth := by
  obtain ⟨f, v⟩ := field
  cases v with
  | int n | long n => cases hreference : f.isReference <;> simp [visit?, edgeOf?, hreference, Value.reference?]
  | ref a =>
    simp only [visit?, edgeOf?, hs.place?_eq, Value.reference?, Option.bind_some]
    cases f.isReference with
    | false => rfl
    | true =>
      cases placeOf? objects a with
      | none => cases hfollowed : f.isFinal || mutable <;> rfl
      | some i =>
        cases hfollowed : f.isFinal || mutable with
        | false => simp [Option.filter, hfollowed]
        | true => simp [Option.filter, Edge.visit, hfollowed]

/-- The children of an object are the visits that its fields lead to. -/
theorem children_eq (hs : s.Shows objects) (o : Object) (depth : Nat) :
    (nodeOf objects o).children mutable depth = (shownOf o).filterMap (s.visit? mutable depth) := by
  simp only [Node.children, nodeOf]
  rw [List.filter_filterMap, List.map_filterMap]
  exact List.filterMap_congr fun field _ => (hs.visit?_eq depth field).symm

theorem prints_tree (hs : s.Shows objects) (v : Visit) (seen : IndexSet) :
    (graphOf objects).Prints mutable [v] seen (s.tree mutable v seen).lines (s.tree mutable v seen).after := by
  induction v, seen using tree.induct s mutable _
    (fun depth (fields : List (Field × Value)) seen =>
      (graphOf objects).Prints mutable (fields.filterMap (s.visit? mutable depth)) seen
        (s.branches mutable depth fields seen).lines (s.branches mutable depth fields seen).after) with
  | case1 v seen hseen =>
    rw [tree, dif_pos hseen]
    exact .reference hseen
  | case2 v seen hseen hobject =>
    have hnode : (graphOf objects).node? v.index = none := by
      rw [node?_graphOf, ← hs.object?_eq, hobject, Option.map_none]
    have hnew := Bool.eq_false_iff.2 hseen
    obtain ⟨hlines, hafter⟩ := tree_of_absent mutable hnew hobject
    rw [hlines, hafter]
    exact .absent hnew hnode
  | case3 v seen hseen o hobject hless ih =>
    have hnode : (graphOf objects).node? v.index = some (nodeOf objects o) := by
      rw [node?_graphOf, ← hs.object?_eq, hobject, Option.map_some]
    rw [← hs.children_eq] at ih
    have hnew := Bool.eq_false_iff.2 hseen
    obtain ⟨hlines, hafter⟩ := tree_of_unseen mutable hnew hobject
    rw [hlines, hafter, ← text_expanded_eq_spelling objects]
    exact .expanded hnew hnode ih
  | case4 depth seen =>
    rw [branches]
    exact .nil
  | case5 depth seen field rest hvisit ih =>
    rw [List.filterMap_cons_none hvisit, branches_of_none rest seen hvisit]
    exact ih
  | case6 depth seen field rest v hvisit first ih ihrest _ =>
    obtain ⟨hlines, hafter⟩ := branches_of_some rest seen hvisit
    rw [List.filterMap_cons_some hvisit, hlines, hafter]
    exact ih.append ihrest

end Shows

/-- A tree has the lines of the recursion, and leaves the same indices seen, whatever was seen before it. -/
theorem exists_walk_eq_tree (hheap : s.heap.WellFormed) (hfits : s.table.slots.Fits) (hintact : s.Intact)
    (mutable : Bool) (root : Index) (seen : IndexSet) : ∃ g, graph s.heap s.table = .ok g ∧
      (g.walk mutable [.root root] seen).1.map Line.text = (s.tree mutable ⟨0, "", root⟩ seen).lines ∧
      (g.walk mutable [.root root] seen).2 = (s.tree mutable ⟨0, "", root⟩ seen).after := by
  obtain ⟨objects, hs⟩ := hheap.exists_shows hfits hintact
  exact ⟨graphOf objects, hs.graph_eq, (hs.prints_tree ⟨0, "", root⟩ seen).walk_eq⟩

/-- The root is on a cycle, and one of the two objects that it leads to was seen before. -/
theorem exists_walk_eq_tree_of_branch : ∃ s : Site, s.heap.WellFormed ∧ s.table.slots.Fits ∧ s.Intact ∧
    (graph s.heap s.table).toOption.map (fun g => g.links false) =
      some [(.ofNat 2, .ofNat 3), (.ofNat 3, .ofNat 2), (.ofNat 3, .ofNat 1)] ∧
    ∃ g, graph s.heap s.table = .ok g ∧
      (g.walk true [.root (.ofNat 3)] (IndexSet.empty.insert (.ofNat 1)).2).1.map Line.text =
        (s.tree true ⟨0, "", .ofNat 3⟩ (IndexSet.empty.insert (.ofNat 1)).2).lines ∧
      (g.walk true [.root (.ofNat 3)] (IndexSet.empty.insert (.ofNat 1)).2).2 =
        (s.tree true ⟨0, "", .ofNat 3⟩ (IndexSet.empty.insert (.ofNat 1)).2).after := by
  obtain ⟨s, hreached, hintact, hlinks⟩ := exists_branch
  exact ⟨s, hreached.wellFormed, hreached.fits, hintact, hlinks,
    exists_walk_eq_tree hreached.wellFormed hreached.fits hintact true _ _⟩

end Site

end KnownObjects
