import KnownObjects.Dump.Document
import KnownObjects.Proofs.Dump.Reading
import KnownObjects.Proofs.Dump.Roots
import KnownObjects.Proofs.Table.Renaming

/-!
# Dumps of renamed heaps

A dump of a table over a renamed heap says the same with every address replaced by its name. The edges of the graph are indices, so the graph has the same edges and the same marks, and a walk over it takes the same steps; the addresses stand in the lines only.
-/

namespace KnownObjects.Dump

def Row.rename (f : Address → Address) : Row → Row
  | null => null
  | object i h a hash className => object i h (f a) hash className

def Node.rename (f : Address → Address) (n : Node) : Node := { n with address := f n.address }

def Graph.rename (f : Address → Address) (g : Graph) : Graph := ⟨g.nodes.map (Node.rename f)⟩

def Line.rename (f : Address → Address) : Line → Line
  | expanded v n => expanded v (n.rename f)
  | reference v => reference v

def Ending.rename (f : Address → Address) : Ending → Ending
  | cut e => cut (e.rename f)
  | listingOnly => listingOnly
  | forest marked known lines => forest marked known (lines.map (Line.rename f))
  | cutForest e => cutForest (e.rename f)

def Document.rename (f : Address → Address) : Document → Document
  | server bound => server bound
  | noAccess bound => noAccess bound
  | listing bound rows ending => listing bound (rows.map (Row.rename f)) (ending.rename f)

/-! ### The walk over a graph whose nodes are changed -/

def Graph.map (φ : Node → Node) (g : Graph) : Graph := ⟨g.nodes.map φ⟩

def Line.map (φ : Node → Node) : Line → Line
  | expanded v n => expanded v (φ n)
  | reference v => reference v

namespace Graph

variable {φ : Node → Node} {mutable : Bool} (g : Graph)

@[simp] theorem indices_map : (g.map φ).indices = g.indices := by
  simp only [indices, map, List.length_map]

theorem node?_map (i : Index) : (g.map φ).node? i = (g.node? i).map φ := by
  unfold node?
  cases i.toNat with
  | zero => rfl
  | succ k => exact List.getElem?_map

/-- The marks come from the final edges. -/
theorem marked_map (hmarks : ∀ n, (φ n).edges.filter (·.isFinal) = n.edges.filter (·.isFinal)) (bound : Index) :
    (g.map φ).marked bound = g.marked bound := by
  simp only [marked, map, List.flatMap_map, hmarks]

variable (hchildren : ∀ n depth, (φ n).children mutable depth = n.children mutable depth)

include hchildren

/-- As long as the nodes keep their children, a walk takes the same steps. -/
theorem walk_map (visits : List Visit) (seen : IndexSet) :
    (g.map φ).walk mutable visits seen =
      ((g.walk mutable visits seen).1.map (Line.map φ), (g.walk mutable visits seen).2) := by
  induction visits, seen using Graph.walk.induct g mutable with
  | case1 seen =>
    rw [walk, walk]
    rfl
  | case2 v visits seen hseen ih =>
    rw [walk_of_seen hseen, walk_of_seen hseen, ih]
    rfl
  | case3 v visits seen hseen hnode ih =>
    have hnew := Bool.eq_false_iff.2 hseen
    have hnode' : (g.map φ).node? v.index = none := by rw [node?_map, hnode, Option.map_none]
    rw [walk_of_absent hnew hnode, walk_of_absent hnew hnode', ih]
  | case4 v visits seen hseen n hnode ih =>
    have hnew := Bool.eq_false_iff.2 hseen
    have hnode' : (g.map φ).node? v.index = some (φ n) := by rw [node?_map, hnode, Option.map_some]
    rw [walk_of_unseen hnew hnode, walk_of_unseen hnew hnode', hchildren, ih]
    rfl

theorem trees_map (row : List Index) (seen : IndexSet) :
    (g.map φ).trees mutable row seen =
      ((g.trees mutable row seen).1.map (Line.map φ), (g.trees mutable row seen).2) := by
  induction row generalizing seen with
  | nil => rfl
  | cons i rest ih =>
    simp only [trees]
    split
    · exact ih seen
    · simp only [walk_map g hchildren, ih, List.map_append]

theorem forest_map (hmarks : ∀ n, (φ n).edges.filter (·.isFinal) = n.edges.filter (·.isFinal)) (bound : Index) :
    (g.map φ).forest mutable bound = (g.forest mutable bound).map (Line.map φ) := by
  simp only [forest, marked_map g hmarks, indices_map, trees_map g hchildren, List.map_append]

end Graph

/-! ### The forest of a renamed graph -/

theorem Line.rename_eq_map (f : Address → Address) : Line.rename f = Line.map (Node.rename f) := by
  funext line
  cases line <;> rfl

namespace Graph

variable (f : Address → Address) (g : Graph) (mutable : Bool)

@[simp] theorem marked_rename (bound : Index) : (g.rename f).marked bound = g.marked bound := by
  apply marked_map
  exact fun _ => rfl

/-- The children are given by indices. -/
theorem forest_rename (bound : Index) :
    (g.rename f).forest mutable bound = (g.forest mutable bound).map (Line.rename f) := by
  rw [Line.rename_eq_map]
  apply forest_map
  · exact fun _ _ => rfl
  · exact fun _ => rfl

end Graph

/-! ### What is read off a renamed heap -/

section

variable {ρ : Renaming} {h k : Heap} (hk : h.Renamed ρ k) (t : Table)

include hk

theorem row_alike (i : Index) (handle : Handle) :
    Heap.Alike ρ (fun r q => q = r.rename ρ) (row h i handle) (row k i handle) := by
  refine (hk.resolve handle).bind_map fun a => ?_
  refine (hk.object a).bind_map fun o => ?_
  exact .ok rfl

theorem rows_renamed (entries : List (Index × Handle)) :
    rows k entries = ((rows h entries).1.map (Row.rename ρ), (rows h entries).2.map (HeapError.rename ρ)) := by
  induction entries with
  | nil => rfl
  | cons entry rest ih =>
    obtain ⟨i, handle⟩ := entry
    simp only [rows]
    rcases (row_alike hk i handle).ok_or_error with ⟨r, _, hs, ht, rfl⟩ | ⟨e, _, hs, ht, rfl⟩
    · simp only [hs, ht, ih, List.map_cons]
    · simp only [hs, ht, List.map_nil, Option.map_some]

theorem target?_alike (v : Value) : Heap.Alike ρ Eq (target? h t v) (target? k t (v.rename ρ)) := by
  simp only [target?, Value.reference?_rename]
  cases v.reference? with
  | none => exact .ok rfl
  | some a =>
    simp only [Option.map_some, ρ.isNull_apply]
    split
    · exact .ok rfl
    · exact hk.search a _

omit hk in
/-- A field adds at most one edge. -/
theorem edges_cons (field : Field) (v : Value) (rest : List (Field × Value)) :
    edges h t ((field, v) :: rest) =
      (if field.isReference then target? h t v else .ok none) >>= fun target =>
        edges h t rest >>= fun others =>
          .ok ((target.map fun i => (⟨field.name, field.isFinal, i⟩ : Edge)).toList ++ others) := by
  simp only [edges]
  split
  · congr 1
    funext target
    cases target <;> rfl
  · rfl

theorem edges_alike (shown : List (Field × Value)) :
    Heap.Alike ρ Eq (edges h t shown) (edges k t (shown.map fun entry => (entry.1, entry.2.rename ρ))) := by
  induction shown with
  | nil => exact .ok rfl
  | cons entry rest ih =>
    obtain ⟨field, v⟩ := entry
    have htarget : Heap.Alike ρ Eq (if field.isReference then target? h t v else .ok none)
        (if field.isReference then target? k t (v.rename ρ) else .ok none) := by
      split
      · exact target?_alike hk t v
      · exact .ok rfl
    rw [List.map_cons, edges_cons, edges_cons]
    refine htarget.bind_eq fun target => ?_
    refine ih.bind_eq fun others => ?_
    exact .ok rfl

omit hk in
theorem number?_rename (entry : Field × Value) : number? (entry.1, entry.2.rename ρ) = number? entry := by
  obtain ⟨field, v⟩ := entry
  cases v <;> rfl

omit hk in
theorem shownOf_rename (o : Object) :
    shownOf (o.rename ρ) = (shownOf o).map fun entry => (entry.1, entry.2.rename ρ) := by
  by_cases harray : o.classInfo.isArray = true
  · simp only [shownOf, Object.rename, harray, if_true, List.map_nil]
  · simp only [shownOf, Object.rename, harray]
    exact List.zip_map_right ..

theorem node_alike (handle : Handle) :
    Heap.Alike ρ (fun n m => m = n.rename ρ) (node h t handle) (node k t handle) := by
  refine (hk.resolve handle).bind_map fun a => ?_
  refine (hk.object a).bind_map fun o => ?_
  have hedges := edges_alike hk t (shownOf o)
  rw [← shownOf_rename] at hedges
  refine hedges.bind_eq fun found => ?_
  have hnumbers : (shownOf (o.rename ρ)).filterMap number? = (shownOf o).filterMap number? := by
    rw [shownOf_rename, List.filterMap_map]
    exact congrArg (List.filterMap · _) (funext number?_rename)
  exact .ok (congrArg (Node.mk (ρ a) o.hash o.classInfo.simpleName · found) hnumbers)

theorem nodes_alike (handles : List Handle) :
    Heap.Alike ρ (fun nodes others => others = nodes.map (Node.rename ρ)) (handles.mapM (node h t))
      (handles.mapM (node k t)) := by
  induction handles with
  | nil => exact .ok rfl
  | cons handle rest ih =>
    rw [List.mapM_cons, List.mapM_cons]
    refine (node_alike hk t handle).bind_map fun n => ?_
    refine ih.bind_map fun nodes => ?_
    exact .ok rfl

theorem graph_alike : Heap.Alike ρ (fun g g' => g' = g.rename ρ) (graph h t) (graph k t) := by
  refine (nodes_alike hk t t.slots.handles).bind_map fun nodes => ?_
  exact .ok rfl

theorem readForest_renamed (mutableFields : Bool) :
    readForest k t mutableFields = (readForest h t mutableFields).rename ρ := by
  simp only [readForest]
  rcases (graph_alike hk t).ok_or_error with ⟨g, _, hs, ht, rfl⟩ | ⟨e, _, hs, ht, rfl⟩
  · rw [hs, ht]
    simp only [Ending.rename, Graph.marked_rename, Graph.forest_rename]
    simp only [Graph.rename, List.length_map]
  · rw [hs, ht]
    rfl

theorem read_renamed (options : DumpOptions) :
    read t options (some k) = (read t options (some h)).rename ρ := by
  simp only [read, rows_renamed hk]
  obtain ⟨rows, cut⟩ := rows h t.slots.refs
  cases cut with
  | some e => rfl
  | none =>
    simp only [Option.map_none, Document.rename, List.map_cons, readForest_renamed hk t]
    split <;> rfl

end

end KnownObjects.Dump
