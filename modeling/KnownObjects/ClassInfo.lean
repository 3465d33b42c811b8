/-!
# Classes and their declared fields

A field has a name and a signature in descriptor form: `I` and `J` for the two sizes of integer, `Lpackage/Name;` for a reference to an object and `[…` for a reference to an array. The signature decides at declaration whether the field is a reference; a field can further be final. An array class is one whose instances are arrays; its declared fields, if any, play no part in a graph.
-/

namespace KnownObjects

structure Field where
  name : String
  signature : String
  isReference : Bool
  isFinal : Bool
deriving DecidableEq

namespace Field

/-- The first character of a signature, which names the kind of value. -/
def kind? (signature : String) : Option Char := signature.toList.head?

/-- A field that may change. It is a reference if its signature is that of an object or an array. -/
def ofSignature (name signature : String) : Field where
  name
  signature
  isReference := kind? signature == some 'L' || kind? signature == some '['
  isFinal := false

def immutable (f : Field) : Field := { f with isFinal := true }

/-- Replaces both properties by the two lowest bits of a number: 1 for a reference, 2 for a final field. -/
def withFlags (f : Field) (bits : Nat) : Field :=
  { f with isReference := bits.testBit 0, isFinal := bits.testBit 1 }

def flags (f : Field) : Nat := f.isReference.toNat + 2 * f.isFinal.toNat

end Field

structure ClassInfo where
  name : String
  fields : List Field
  isArray : Bool
deriving DecidableEq

namespace ClassInfo

def slotOf? (c : ClassInfo) (name : String) : Option Nat := c.fields.findIdx? (·.name == name)

/-- The name without its package: what follows the last slash. -/
def simpleName (c : ClassInfo) : String :=
  String.ofList (c.name.toList.reverse.takeWhile (· ≠ '/')).reverse

end ClassInfo

end KnownObjects
