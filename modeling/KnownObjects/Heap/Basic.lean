import KnownObjects.Heap.Error
import KnownObjects.Heap.HandleTable
import KnownObjects.Heap.Value

/-!
# The heap

A heap holds classes, objects and handles. Objects are listed in the order of their addresses, which is the order in which they were allocated: each new object takes the next free address, and addresses are never used twice. Next to its values an object keeps the class it is an instance of and an identity hash that it carries for ever.

The next free address is a plain number without an upper bound; addresses are its residues. So long as the number stays within the address space the two agree.
-/

namespace KnownObjects

abbrev HeapId := Nat

abbrev ClassId := Nat

structure Settings where
  base : UInt64
  alignment : UInt64
  seed : UInt32
deriving DecidableEq

namespace Settings

def default : Settings := ⟨0x1000, 16, 0x9e3779b9⟩

/-- The first of the four rules that the settings break. -/
def check (s : Settings) : Except SettingsError Unit :=
  if s.base = 0 then .error .zeroBase
  else if s.alignment < 8 ∨ s.alignment &&& (s.alignment - 1) ≠ 0 then .error .badAlignment
  else if s.base % s.alignment ≠ 0 then .error .unalignedBase
  else if s.seed = 0 then .error .zeroSeed
  else .ok ()

/-- The room that an object with this many fields takes: one unit for itself and one for each field. -/
def footprint (s : Settings) (fields : Nat) : Nat := s.alignment.toNat * (1 + fields)

end Settings

structure Object where
  address : Address
  classInfo : ClassInfo
  hash : UInt32
  values : List Value
deriving DecidableEq

structure Heap where
  id : HeapId
  settings : Settings
  classes : List ClassInfo
  objects : List Object
  frontier : Nat
  hashState : UInt32
  handles : HandleTable
  collections : Nat
deriving DecidableEq

/-- One step of the generator of identity hashes: three shifts, each combined with the word by exclusive or. -/
def nextHash (x : UInt32) : UInt32 :=
  let x := x ^^^ (x <<< 13)
  let x := x ^^^ (x >>> 17)
  x ^^^ (x <<< 5)

namespace Heap

def create (id : HeapId) (settings : Settings) : Except HeapError Heap := do
  settings.check.mapError .invalidSettings
  return {
    id
    settings
    classes := []
    objects := []
    frontier := settings.base.toNat
    hashState := settings.seed
    handles := .empty
    collections := 0 }

def object? (h : Heap) (a : Address) : Option Object := h.objects.find? (·.address == a)

def isLive (h : Heap) (a : Address) : Bool := (h.object? a).isSome

def object (h : Heap) (a : Address) : Except HeapError Object :=
  match h.object? a with
  | some o => .ok o
  | none => .error (.staleAddress a)

def resolve (h : Heap) (handle : Handle) : Except HeapError Address :=
  match h.handles.get? handle with
  | some a => .ok a
  | none => .error (.invalidHandle handle)

def classOf (h : Heap) (a : Address) : Except HeapError ClassInfo := do
  return (← h.object a).classInfo

/-- The identity hash, which no collection changes. -/
def hashOf (h : Heap) (a : Address) : Except HeapError UInt32 := do
  return (← h.object a).hash

def fieldAt (h : Heap) (a : Address) (slot : UInt64) : Except HeapError Value := do
  let o ← h.object a
  match o.values[slot.toNat]? with
  | some v => .ok v
  | none => .error (.fieldOutOfRange a slot)

def slotOf (o : Object) (name : String) : Except HeapError Nat :=
  match o.classInfo.slotOf? name with
  | some slot => .ok slot
  | none => .error (.unknownField o.classInfo.name name)

def field (h : Heap) (a : Address) (name : String) : Except HeapError Value := do
  let slot ← slotOf (← h.object a) name
  h.fieldAt a (UInt64.ofNat slot)

def read (h : Heap) (location : Location) : Except HeapError Address :=
  match location with
  | .handle handle => h.resolve handle
  | .field holder slot => do
    let value ← h.fieldAt (← h.resolve holder) slot
    match value.reference? with
    | some target => .ok target
    | none => .error (.notAReference location)

def define (h : Heap) (c : ClassInfo) : ClassId × Heap :=
  (h.classes.length, { h with classes := h.classes ++ [c] })

/-- Places a zeroed instance of a class at the frontier and makes a handle for it. -/
def instantiate (h : Heap) (classInfo : ClassInfo) : Handle × Heap :=
  let address := Address.ofNat h.frontier
  let hash := nextHash h.hashState
  let values := classInfo.fields.map Value.zeroOf
  let bound := h.handles.insert address
  (bound.1, { h with
    objects := h.objects ++ [{ address, classInfo, hash, values }]
    frontier := h.frontier + h.settings.footprint values.length
    hashState := hash
    handles := bound.2 })

def allocate (h : Heap) (c : ClassId) : Option (Handle × Heap) := h.classes[c]?.map h.instantiate

def newHandle (h : Heap) (a : Address) : Except HeapError (Handle × Heap) :=
  if h.isLive a then
    let bound := h.handles.insert a
    .ok (bound.1, { h with handles := bound.2 })
  else .error (.staleAddress a)

/-- Gives handles back and counts those that were in use. -/
def release (h : Heap) (handles : List Handle) : Nat × Heap :=
  let released := h.handles.releaseAll handles
  (released.1, { h with handles := released.2 })

/-- The value that a mutator means by what it writes. -/
def valueOf (h : Heap) : NewValue → Except HeapError Value
  | .int v => .ok (.int v)
  | .long v => .ok (.long v)
  | .ref target => return .ref (← h.resolve target)
  | .null => .ok (.ref .null)

def setValue (h : Heap) (a : Address) (slot : Nat) (v : Value) : Heap :=
  { h with objects := h.objects.map fun o =>
      if o.address == a then { o with values := o.values.set slot v } else o }

def store (h : Heap) (holder : Handle) (name : String) (new : NewValue) : Except HeapError Heap := do
  let a ← h.resolve holder
  let v ← h.valueOf new
  let o ← h.object a
  let slot ← slotOf o name
  match o.classInfo.fields[slot]? with
  | some f =>
    if v.fits f then return h.setValue a slot v else throw (.typeMismatch f.name f.signature)
  | none => throw (.unknownField o.classInfo.name name)

end Heap

end KnownObjects
