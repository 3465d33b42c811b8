import KnownObjects.Failure
import KnownObjects.Heap.Collection
import KnownObjects.IndexSet

/-!
# The known object table

A table gives every object that a compilation meets an index, in the order of first appearance, and holds a handle for each so that it can find the object again after a collection. Null always has index 0. Objects are compared by their current addresses: a lookup resolves the table's handles in index order until one leads to the object.

A site is a table together with the heap through which it is used. The table remembers which heap it belongs to, and every operation that compares addresses refuses any other heap.
-/

namespace KnownObjects

/-- Which side of a compilation a table lives on. -/
inductive Role where
  | sameProcess
  | server
  | client
deriving DecidableEq

def Role.text : Role → String
  | sameProcess => "Local"
  | server => "ServerSide"
  | client => "ClientSide"

structure Table where
  heapId : HeapId
  slots : SlotStore
  constantElements : IndexSet
deriving DecidableEq

structure Site where
  heap : Heap
  table : Table
deriving DecidableEq

namespace SlotStore

/-- The slot at an index, which must be below the size. -/
def get (s : SlotStore) (i : Index) : Except Fatal Slot :=
  match s.get? i with
  | some slot => .ok slot
  | none => .error (.indexOutOfRange i s.size)

/-- Adds a slot, if the row has room for it. -/
def append (s : SlotStore) (h : Handle) : Except Fatal (Index × SlotStore) :=
  match s.append? h with
  | some added => .ok added
  | none => .error .tableFull

end SlotStore

namespace IndexSet

/-- Marks an index. Null and the mark of an unknown object are never added. -/
def tag (s : IndexSet) (i : Index) : IndexSet :=
  if i.isNull || i.isUnknown then s else (s.insert i).2

end IndexSet

namespace Table

def empty (heapId : HeapId) : Table := ⟨heapId, .empty, .empty⟩

def endIndex (t : Table) : Index := t.slots.size

def tag (t : Table) (i : Index) : Table := { t with constantElements := t.constantElements.tag i }

def isTagged (t : Table) (i : Index) : Bool := t.constantElements.contains i

/-- The first index in a row of handles whose handle leads to an object. A handle before it that leads nowhere is an error. -/
def search (heap : Heap) (object : Address) : List (Index × Handle) → Except HeapError (Option Index)
  | [] => .ok none
  | (i, h) :: rest =>
    match heap.resolve h with
    | .error e => .error e
    | .ok a => if a = object then .ok (some i) else search heap object rest

def find (t : Table) (heap : Heap) (object : Address) : Except HeapError (Option Index) :=
  search heap object t.slots.refs

end Table

namespace Site

variable {α : Type}

abbrev Run (α : Type) := Action Fatal Site α

/-- Gives up unless the heap is the one that the table belongs to. -/
def checkHeap : Run Unit := do
  let site ← get
  if site.heap.id = site.table.heapId then return () else .raise .foreignAccess

def slot (i : Index) : Run Slot := do
  .orRaise id ((← get).table.slots.get i)

def read (location : Location) : Run Address := do
  .orRaise .heap ((← get).heap.read location)

/-- Makes a handle for an object and appends it to the slots. -/
def learn (object : Address) : Run Index := do
  let site ← get
  let (handle, heap) ← .orRaise .heap (site.heap.newHandle object)
  set { site with heap }
  let (index, slots) ← .orRaise id (site.table.slots.append handle)
  modify fun s => { s with table := { s.table with slots } }
  .note .debug ("known object " ++ object.text ++ " assigned obj" ++ index.text ++
    " (" ++ handle.text ++ ")")
  return index

/-- The index of an object, which gets the next one if it has none. -/
def indexOf (object : Address) : Run Index := do
  if object.isNull then
    return .null
  else
    checkHeap
    let site ← get
    match ← .orRaise .heap (site.table.find site.heap object) with
    | some index =>
      .note .trace ("known object " ++ object.text ++ " already at obj" ++ index.text)
      return index
    | none => learn object

/-- The index of an object, or the mark of an unknown object if it has none. -/
def existingIndexOf (object : Address) : Run Index := do
  if object.isNull then
    return .null
  else
    checkHeap
    let site ← get
    return (← .orRaise .heap (site.table.find site.heap object)).getD .unknown

/-- The current address of the object at an index. -/
def pointerOf (i : Index) : Run Address := do
  match ← slot i with
  | .null => return .null
  | .ref h =>
    checkHeap
    .orRaise .heap ((← get).heap.resolve h)

/-- Tags an index as that of an array whose elements never change. -/
def tag (i : Index) : Run Unit := modify fun s => { s with table := s.table.tag i }

/-- Tags the index that a lookup finds, if asked to. -/
def tagging (constant : Bool) (lookup : Run Index) : Run Index := do
  let i ← lookup
  if constant then tag i
  return i

/-- The index of the object that a location holds, tagged if the elements are constant. -/
def indexAt (location : Location) (constant : Bool) : Run Index :=
  tagging constant do indexOf (← read location)

/-- The index of the object that a location holds, or the mark of an unknown object if it has none. -/
def existingIndexAt (location : Location) : Run Index := do
  existingIndexOf (← read location)

/-- Gives back the handles of all slots, as a table does at its end. -/
def dropTable {ε : Type} : Action ε Site Unit := do
  let site ← get
  let (released, heap) := site.heap.release site.table.slots.handles
  set { site with heap }
  .note .trace ("known object table dropped, released " ++ toString released ++ " handles")

end Site

end KnownObjects
