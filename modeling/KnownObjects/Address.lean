import KnownObjects.Text

/-!
# Addresses and handles

An address says where an object lies at the moment; a collection moves every object, so an address that was read before a collection denotes nothing afterwards. A handle is the durable reference: the number of a slot that the collector updates when it moves the object.
-/

namespace KnownObjects

structure Address where
  raw : UInt64
deriving DecidableEq

namespace Address

def null : Address := ⟨0⟩

/-- The address with a given number, taken modulo the size of the address space. -/
def ofNat (n : Nat) : Address := ⟨UInt64.ofNat n⟩

def toNat (a : Address) : Nat := a.raw.toNat

def isNull (a : Address) : Bool := a == null

/-- `0x` and at least twelve hexadecimal digits. -/
def text (a : Address) : String := "0x" ++ Text.hexFilled 12 a.toNat

def debugText (a : Address) : String := "Address(" ++ toString a.toNat ++ ")"

theorem toNat_ofNat {n : Nat} (h : n < 18446744073709551616) : (ofNat n).toNat = n := UInt64.toNat_ofNat_of_lt' h

@[simp] theorem ofNat_toNat (a : Address) : ofNat a.toNat = a := congrArg Address.mk UInt64.ofNat_toNat

theorem toNat_lt (a : Address) : a.toNat < 18446744073709551616 := a.raw.toNat_lt

theorem isNull_iff {a : Address} : a.isNull = true ↔ a = null := by simp [isNull]

end Address

structure Handle where
  raw : UInt32
deriving DecidableEq

namespace Handle

def ofNat (n : Nat) : Handle := ⟨UInt32.ofNat n⟩

def toNat (h : Handle) : Nat := h.raw.toNat

def text (h : Handle) : String := "h#" ++ toString h.toNat

def debugText (h : Handle) : String := "Handle(" ++ toString h.toNat ++ ")"

theorem toNat_ofNat {n : Nat} (h : n < 4294967296) : (ofNat n).toNat = n := UInt32.toNat_ofNat_of_lt' h

@[simp] theorem ofNat_toNat (h : Handle) : ofNat h.toNat = h := congrArg Handle.mk UInt32.ofNat_toNat

end Handle

/-- A place that holds a reference: a handle, or a field of the object behind a handle. -/
inductive Location where
  | handle (handle : Handle)
  | field (holder : Handle) (slot : UInt64)
deriving DecidableEq

def Location.debugText : Location → String
  | handle h => "Handle(" ++ h.debugText ++ ")"
  | field holder slot =>
    "Field \x7b holder: " ++ holder.debugText ++ ", field: " ++ toString slot.toNat ++ " \x7d"

end KnownObjects
