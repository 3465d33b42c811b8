import KnownObjects.Address
import KnownObjects.Index

/-!
# Slots of a table

The slots of a table form a row that only grows. Slot 0 is the null placeholder and is there from the start; every later slot holds a handle, so the row is determined by the list of its handles.
-/

namespace KnownObjects

inductive Slot where
  | null
  | ref (handle : Handle)
deriving DecidableEq

def Slot.debugText : Slot → String
  | null => "Null"
  | ref h => "Ref(" ++ h.debugText ++ ")"

/-- The handles of the slots 1, 2, and so on. -/
structure SlotStore where
  handles : List Handle
deriving DecidableEq

namespace SlotStore

def empty : SlotStore := ⟨[]⟩

/-- All slots from slot 0 on. -/
def toList (s : SlotStore) : List Slot := .null :: s.handles.map .ref

/-- One past the highest index in use. -/
def size (s : SlotStore) : Index := .ofNat (s.handles.length + 1)

/-- Adds a slot, whose index is the size so far. The row is full when the index after that would be the mark of an unknown object. -/
def append? (s : SlotStore) (h : Handle) : Option (Index × SlotStore) :=
  if s.size.toNat + 1 = Index.unknown.toNat then none else some (s.size, ⟨s.handles ++ [h]⟩)

def get? (s : SlotStore) (i : Index) : Option Slot :=
  if i.isUnknown then none else s.toList[i.toNat]?

/-- The handles with their indices, in order. -/
def refs (s : SlotStore) : List (Index × Handle) :=
  (s.handles.zipIdx 1).map fun entry => (.ofNat entry.2, entry.1)

end SlotStore

end KnownObjects
