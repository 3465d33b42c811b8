/-!
# Indices of known objects

An index is the position of an object inside a table. Index 0 is the null object, and the largest 32-bit number marks an object that has no slot in the table. All indices between the two are handed out in increasing order.
-/

namespace KnownObjects

structure Index where
  raw : UInt32
deriving DecidableEq

namespace Index

def null : Index := ⟨0⟩

/-- Marks an object without a slot. -/
def unknown : Index := ⟨0xffffffff⟩

def ofNat (n : Nat) : Index := ⟨UInt32.ofNat n⟩

def toNat (i : Index) : Nat := i.raw.toNat

def isNull (i : Index) : Bool := i == null

def isUnknown (i : Index) : Bool := i == unknown

instance : Ord Index := ⟨fun i j => compare i.toNat j.toNat⟩

instance : LT Index := ⟨fun i j => i.toNat < j.toNat⟩

instance : LE Index := ⟨fun i j => i.toNat ≤ j.toNat⟩

instance (i j : Index) : Decidable (i < j) := inferInstanceAs (Decidable (i.toNat < j.toNat))

instance (i j : Index) : Decidable (i ≤ j) := inferInstanceAs (Decidable (i.toNat ≤ j.toNat))

/-- The number, or the word `UNKNOWN`. -/
def text (i : Index) : String := if i.isUnknown then "UNKNOWN" else toString i.toNat

/-- The number under its type's name, also for the mark of an object without a slot. -/
def debugText (i : Index) : String := "Index(" ++ toString i.toNat ++ ")"

theorem toNat_ofNat {n : Nat} (h : n < 4294967296) : (ofNat n).toNat = n := UInt32.toNat_ofNat_of_lt' h

@[simp] theorem ofNat_toNat (i : Index) : ofNat i.toNat = i := congrArg Index.mk UInt32.ofNat_toNat

theorem toNat_lt (i : Index) : i.toNat < 4294967296 := i.raw.toNat_lt

theorem ext_toNat {i j : Index} (h : i.toNat = j.toNat) : i = j := by
  rw [← ofNat_toNat i, ← ofNat_toNat j, h]

end Index

end KnownObjects
