import KnownObjects.Wire.Varint

/-!
# Messages as bytes

Every message has one written form: numbers as varints, alternatives as the number of the alternative followed by its parts, texts as their length in bytes followed by their UTF-8 form. Types that only wrap a number are written as that number.
-/

namespace KnownObjects

namespace Wire

/-- A type whose values can be written to the body of a frame and read back. -/
class Codec (α : Type) where
  encode : α → List UInt8
  decode : Decoder α

export Codec (encode decode)

instance : Codec UInt32 := ⟨fun n => varint n.toNat, readUInt32⟩

instance : Codec UInt64 := ⟨fun n => varint n.toNat, readUInt64⟩

instance : Codec Index := ⟨fun i => encode i.raw, Index.mk <$> decode⟩

instance : Codec Handle := ⟨fun h => encode h.raw, Handle.mk <$> decode⟩

instance : Codec Address := ⟨fun a => encode a.raw, Address.mk <$> decode⟩

/-- Takes a given number of bytes, if there are as many. -/
def takeBytes (count : Nat) : Decoder (List UInt8) := fun bytes =>
  if (bytes.take count).length < count then .error .endOfBody
  else .ok (bytes.take count, bytes.drop count)

def utf8 (text : String) : List UInt8 := text.toUTF8.data.toList

def ofUtf8? (bytes : List UInt8) : Option String := String.fromUTF8? ⟨bytes.toArray⟩

instance : Codec String where
  encode text := varint (utf8 text).length ++ utf8 text
  decode := do
    let length ← readUInt64
    match ofUtf8? (← takeBytes length.toNat) with
    | some text => return text
    | none => throw .badText

def readVariant : Decoder Nat := UInt32.toNat <$> readUInt32

instance : Codec Slot where
  encode
    | .null => varint 0
    | .ref h => varint 1 ++ encode h
  decode := do
    match ← readVariant with
    | 0 => return .null
    | 1 => return .ref (← decode)
    | _ => throw .badVariant

instance : Codec Location where
  encode
    | .handle h => varint 0 ++ encode h
    | .field holder slot => varint 1 ++ encode holder ++ encode slot
  decode := do
    match ← readVariant with
    | 0 => return .handle (← decode)
    | 1 => return .field (← decode) (← decode)
    | _ => throw .badVariant

instance : Codec Request where
  encode
    | .getIndex a => varint 0 ++ encode a
    | .getIndexAt l => varint 1 ++ encode l
    | .getExistingIndexAt l => varint 2 ++ encode l
    | .getPointer i => varint 3 ++ encode i
  decode := do
    match ← readVariant with
    | 0 => return .getIndex (← decode)
    | 1 => return .getIndexAt (← decode)
    | 2 => return .getExistingIndexAt (← decode)
    | 3 => return .getPointer (← decode)
    | _ => throw .badVariant

instance : Codec Response where
  encode
    | .reply (.index i s) => varint 0 ++ encode i ++ encode s
    | .reply (.existingIndex i) => varint 1 ++ encode i
    | .reply (.pointer a) => varint 2 ++ encode a
    | .refusal text => varint 3 ++ encode text
  decode := do
    match ← readVariant with
    | 0 => return .reply (.index (← decode) (← decode))
    | 1 => return .reply (.existingIndex (← decode))
    | 2 => return .reply (.pointer (← decode))
    | 3 => return .refusal (← decode)
    | _ => throw .badVariant

end Wire

end KnownObjects
