import KnownObjects.Table

/-!
# Known objects as a graph

The graph of a table has one node for each known object. Its edges are the reference fields that hold a known object, in the order of their declaration; an edge is final if its field is. Arrays have no edges and show no numbers. A graph is read off the heap once, and everything that is printed about it comes from this picture.
-/

namespace KnownObjects.Dump

structure Edge where
  field : String
  isFinal : Bool
  target : Index
deriving DecidableEq

structure Node where
  address : Address
  hash : UInt32
  className : String
  /-- The fields with signature `I`, with their numbers. -/
  numbers : List (String × Int32)
  edges : List Edge
deriving DecidableEq

/-- The nodes of the indices 1, 2, and so on. -/
structure Graph where
  nodes : List Node
deriving DecidableEq

namespace Graph

def indices (g : Graph) : List Index := (List.range g.nodes.length).map fun k => .ofNat (k + 1)

def node? (g : Graph) (i : Index) : Option Node :=
  match i.toNat with
  | 0 => none
  | k + 1 => g.nodes[k]?

/-- The indices to which some node has a final edge. -/
def marked (g : Graph) (bound : Index) : IndexSet :=
  (g.nodes.flatMap fun n => (n.edges.filter (·.isFinal)).map (·.target)).foldl
    (fun s i => (s.insert i).2) (.withCapacity bound)

theorem mem_indices_of_node? {g : Graph} {i : Index} {n : Node} (h : g.node? i = some n) :
    i ∈ g.indices := by
  unfold node? at h
  split at h
  · simp at h
  · rename_i k hk
    refine List.mem_map.2 ⟨k, List.mem_range.2 (List.getElem?_eq_some_iff.1 h).1, ?_⟩
    rw [show k + 1 = i.toNat from hk.symm, Index.ofNat_toNat]

end Graph

/-- The known object that a value refers to. -/
def target? (heap : Heap) (t : Table) (v : Value) : Except HeapError (Option Index) :=
  match v.reference? with
  | some a => if a.isNull then .ok none else t.find heap a
  | none => .ok none

def edges (heap : Heap) (t : Table) : List (Field × Value) → Except HeapError (List Edge)
  | [] => .ok []
  | (f, v) :: rest => do
    let target ← if f.isReference then target? heap t v else .ok none
    let others ← edges heap t rest
    match target with
    | some target => return ⟨f.name, f.isFinal, target⟩ :: others
    | none => return others

/-- The number that a field shows, if its signature is `I` and it holds one. -/
def number? : Field × Value → Option (String × Int32)
  | (f, .int n) => if f.signature = "I" then some (f.name, n) else none
  | _ => none

def node (heap : Heap) (t : Table) (h : Handle) : Except HeapError Node := do
  let address ← heap.resolve h
  let o ← heap.object address
  let shown := if o.classInfo.isArray then [] else o.classInfo.fields.zip o.values
  return {
    address
    hash := o.hash
    className := o.classInfo.simpleName
    numbers := shown.filterMap number?
    edges := ← edges heap t shown }

def graph (heap : Heap) (t : Table) : Except HeapError Graph := do
  return ⟨← t.slots.handles.mapM (node heap t)⟩

end KnownObjects.Dump
