import KnownObjects.Address
import KnownObjects.ClassInfo

/-!
# Values of fields

What a field holds, and what a mutator writes into it. A mutator never holds an address: the reference that it writes is given by a handle.
-/

namespace KnownObjects

inductive Value where
  | int (value : Int32)
  | long (value : Int64)
  | ref (target : Address)
deriving DecidableEq

namespace Value

def reference? : Value → Option Address
  | ref target => some target
  | _ => none

/-- What a field holds before anything is stored in it. The first character of the signature decides. -/
def zeroOf (f : Field) : Value :=
  match Field.kind? f.signature with
  | some 'J' => long 0
  | some 'L' => ref .null
  | some '[' => ref .null
  | _ => int 0

/-- Whether a field takes a value of this kind. -/
def fits (f : Field) : Value → Bool
  | ref _ => f.isReference
  | long _ => f.signature == "J"
  | int _ => !f.isReference && f.signature != "J"

end Value

inductive NewValue where
  | int (value : Int32)
  | long (value : Int64)
  | ref (target : Handle)
  | null
deriving DecidableEq

end KnownObjects
