import KnownObjects.Address

/-!
# What can go wrong on a heap

The causes for which the heap refuses an operation, and the text that reports each.
-/

namespace KnownObjects

inductive SettingsError where
  | zeroBase
  | badAlignment
  | unalignedBase
  | zeroSeed
deriving DecidableEq

def SettingsError.message : SettingsError → String
  | zeroBase => "base_address must be non-zero"
  | badAlignment => "alignment must be a power of two of at least 8"
  | unalignedBase => "base_address must be aligned"
  | zeroSeed => "hash_seed must be non-zero"

inductive HeapError where
  | invalidSettings (cause : SettingsError)
  | invalidHandle (handle : Handle)
  | staleAddress (address : Address)
  | unknownField (className field : String)
  | fieldOutOfRange (address : Address) (slot : UInt64)
  | notAReference (location : Location)
  | typeMismatch (field signature : String)
deriving DecidableEq

namespace HeapError

/-- A name between two grave accents. -/
private def accented (name : String) : String := "\x60" ++ name ++ "\x60"

def message : HeapError → String
  | invalidSettings cause => "invalid heap settings: " ++ cause.message
  | invalidHandle h => "handle " ++ h.text ++ " does not exist"
  | staleAddress a => "no live object at " ++ a.text
  | unknownField className field => "class " ++ className ++ " has no field " ++ accented field
  | fieldOutOfRange a slot => "object at " ++ a.text ++ " has no field slot " ++ toString slot.toNat
  | notAReference location => location.debugText ++ " does not hold a reference"
  | typeMismatch field signature =>
    "value does not fit field " ++ accented field ++ " (" ++ signature ++ ")"

end HeapError

end KnownObjects
