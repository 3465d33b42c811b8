import KnownObjects.Failure

/-!
# Numbers of variable length

A number is written in groups of seven bits, the lowest group first, and every byte but the last has its highest bit set. The writer uses as few bytes as it can. The reader accepts spellings that are longer than needed, up to the number of bytes that the width of the number allows, and the last byte allowed must not hold bits beyond that width.
-/

namespace KnownObjects.Wire

/-- Reads a value from the front of a body, and leaves the rest. -/
abbrev Decoder (α : Type) := StateT (List UInt8) (Except DecodeError) α

/-- The shortest spelling of a number. -/
def varint (n : Nat) : List UInt8 :=
  if n < 128 then [UInt8.ofNat n] else UInt8.ofNat (n % 128 + 128) :: varint (n / 128)

/-- Reads a number of at most `more + 1` bytes, of which the last one that is allowed is at most `top`. -/
def readVarint (more top : Nat) : Decoder Nat
  | [] => .error .endOfBody
  | b :: rest =>
    match more with
    | 0 => if b.toNat ≤ top then .ok (b.toNat, rest) else .error .badVarint
    | more + 1 =>
      if b.toNat < 128 then .ok (b.toNat, rest)
      else
        match readVarint more top rest with
        | .ok (n, rest) => .ok (b.toNat - 128 + 128 * n, rest)
        | .error e => .error e

/-- A number of 32 bits takes at most five bytes. -/
def readUInt32 : Decoder UInt32 := do
  return .ofNat (← readVarint 4 0x0f)

/-- A number of 64 bits takes at most ten bytes. -/
def readUInt64 : Decoder UInt64 := do
  return .ofNat (← readVarint 9 0x01)

end KnownObjects.Wire
