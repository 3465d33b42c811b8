import KnownObjects.Address

/-!
# The handle table

A row of slots that hold addresses. A slot that holds null is free, and the free slots wait in a list from which the one released last is handed out first. The row grows only when no slot is free.
-/

namespace KnownObjects

structure HandleTable where
  slots : Array Address
  free : List Handle
deriving DecidableEq

namespace HandleTable

def empty : HandleTable := ⟨#[], []⟩

def get? (t : HandleTable) (h : Handle) : Option Address :=
  t.slots[h.toNat]?.filter (!·.isNull)

/-- Binds an address to a free slot, or to a new one if there is none. -/
def insert (t : HandleTable) (a : Address) : Handle × HandleTable :=
  match t.free with
  | h :: rest => (h, ⟨t.slots.setIfInBounds h.toNat a, rest⟩)
  | [] => (Handle.ofNat t.slots.size, ⟨t.slots.push a, []⟩)

/-- Frees the slot of a handle. A handle that is not in use is left alone, and the answer is `false`. -/
def release (t : HandleTable) (h : Handle) : Bool × HandleTable :=
  match t.get? h with
  | some _ => (true, ⟨t.slots.setIfInBounds h.toNat .null, h :: t.free⟩)
  | none => (false, t)

/-- Frees handles in order, and counts those that were in use. -/
def releaseAll (t : HandleTable) : List Handle → Nat × HandleTable
  | [] => (0, t)
  | h :: rest =>
    let first := t.release h
    let others := first.2.releaseAll rest
    (first.1.toNat + others.1, others.2)

def live (t : HandleTable) : Nat := t.slots.size - t.free.length

/-- Replaces what every slot holds, free ones included. -/
def mapSlots (t : HandleTable) (f : Address → Address) : HandleTable := { t with slots := t.slots.map f }

end HandleTable

end KnownObjects
