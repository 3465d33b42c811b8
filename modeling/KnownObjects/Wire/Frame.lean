import KnownObjects.Wire.Codec

/-!
# Frames

On a byte stream each message travels in a frame: four bytes that hold the length of the body, the lowest first, and then the body. A body has at most 65536 bytes; a longer one is refused on both sides, before anything of it is written or read. What follows the message in a body is ignored.

A source is what is left to read, and a sink is what has been written. Both say how they end: a source with the end of its input or with a failing device, a sink when it has taken as many bytes as it has room for.
-/

namespace KnownObjects.Wire

structure Source where
  bytes : List UInt8
  /-- Whether the device fails where the bytes end. -/
  failing : Bool
deriving DecidableEq

structure Sink where
  written : List UInt8
  /-- How many bytes it takes in all, if there is a limit. -/
  capacity : Option Nat
deriving DecidableEq

namespace Source

def ofBytes (bytes : List UInt8) : Source := ⟨bytes, false⟩

/-- What a reader meets once the bytes are used up. -/
def exhausted (s : Source) : TransferError := if s.failing then .deviceFailed else .endOfInput

/-- Reads exactly `count` bytes. If there are fewer, they are lost. -/
def read (s : Source) (count : Nat) : Except TransferError (List UInt8) × Source :=
  if (s.bytes.take count).length < count then (.error s.exhausted, { s with bytes := [] })
  else (.ok (s.bytes.take count), { s with bytes := s.bytes.drop count })

end Source

namespace Sink

def empty : Sink := ⟨[], none⟩

/-- How many of `count` further bytes it takes. -/
def room (s : Sink) (count : Nat) : Nat :=
  match s.capacity with
  | some capacity => min count (capacity - s.written.length)
  | none => count

/-- Writes as many of the bytes as it takes, and fails if that is not all of them. -/
def write (s : Sink) (bytes : List UInt8) : Except TransferError Unit × Sink :=
  let room := s.room bytes.length
  (if room < bytes.length then .error .outputFull else .ok (),
    { s with written := s.written ++ bytes.take room })

end Sink

/-- The longest body that a frame may have. -/
def maxFrame : Nat := 65536

/-- The four bytes that announce a body. -/
def header (length : Nat) : List UInt8 :=
  [.ofNat length, .ofNat (length / 0x100), .ofNat (length / 0x10000), .ofNat (length / 0x1000000)]

/-- The length that a header announces: the number whose digits to the base 256 are its bytes, the lowest first. -/
def announced : List UInt8 → Nat
  | [] => 0
  | b :: rest => b.toNat + 256 * announced rest

def frame {α : Type} [Codec α] (message : α) : List UInt8 :=
  header (encode message).length ++ encode message

/-- Writes a message in its frame. The header and the body are written one after the other. -/
def writeFrame {α : Type} [Codec α] (message : α) (sink : Sink) : Except ChannelError Unit × Sink :=
  let body := encode message
  if maxFrame < body.length then (.error (.frameTooLarge body.length), sink)
  else
    match sink.write (header body.length) with
    | (.error e, sink) => (.error (.transfer e), sink)
    | (.ok (), sink) =>
      let (result, sink) := sink.write body
      (result.mapError .transfer, sink)

def ofBody {α : Type} [Codec α] (body : List UInt8) : Except ChannelError α :=
  match (decode : Decoder α).run body with
  | .ok (message, _) => .ok message
  | .error e => .error (.malformed e)

/-- Reads the next message. There is none when the input ends before a whole header. -/
def readFrame {α : Type} [Codec α] (source : Source) :
    Except ChannelError (Option α) × Source :=
  match source.read 4 with
  | (.error .endOfInput, source) => (.ok none, source)
  | (.error e, source) => (.error (.transfer e), source)
  | (.ok head, source) =>
    let length := announced head
    if maxFrame < length then (.error (.frameTooLarge length), source)
    else
      match source.read length with
      | (.error e, source) => (.error (.transfer e), source)
      | (.ok body, source) => (some <$> ofBody body, source)

theorem Source.length_read_le (s : Source) (count : Nat) :
    (s.read count).2.bytes.length ≤ s.bytes.length := by
  unfold read
  split <;> simp

theorem Source.length_read_lt {s : Source} {count : Nat} {bytes : List UInt8} {rest : Source}
    (h : s.read count = (.ok bytes, rest)) (hcount : 0 < count) :
    rest.bytes.length < s.bytes.length := by
  unfold read at h
  split at h
  · simp at h
  · rename_i hlen
    simp only [Prod.mk.injEq] at h
    rw [← h.2, List.length_drop]
    rw [List.length_take] at hlen
    omega

/-- A frame that is read uses up at least its header. -/
theorem length_readFrame_lt {α : Type} [Codec α] {source rest : Source} {message : α}
    (h : readFrame source = (.ok (some message), rest)) : rest.bytes.length < source.bytes.length := by
  unfold readFrame at h
  split at h
  · simp at h
  · simp at h
  · rename_i head afterHead hhead
    have hshort := Source.length_read_lt hhead (by decide)
    dsimp only at h
    split at h
    · simp at h
    · split at h
      · simp at h
      · rename_i body afterBody hbody
        simp only [Prod.mk.injEq] at h
        have hle := Source.length_read_le afterHead (announced head)
        rw [hbody] at hle
        rw [← h.2]
        exact Nat.lt_of_le_of_lt hle hshort

/-- Reads messages until the input ends or a frame is broken. -/
def readFrames {α : Type} [Codec α] (source : Source) : List α × Except ChannelError Unit :=
  match _h : readFrame (α := α) source with
  | (.error e, _) => ([], .error e)
  | (.ok none, _) => ([], .ok ())
  | (.ok (some message), rest) =>
    let others := readFrames rest
    (message :: others.1, others.2)
termination_by source.bytes.length
decreasing_by exact length_readFrame_lt _h

/-- Writes messages one after the other, going on after a failure. For each one it reports how many bytes the sink then holds, or why it failed. -/
def writeFrames {α : Type} [Codec α] (sink : Sink) : List α → List (Except ChannelError Nat) × Sink
  | [] => ([], sink)
  | message :: rest =>
    let (result, sink) := writeFrame message sink
    let others := writeFrames sink rest
    (result.map (fun _ => sink.written.length) :: others.1, others.2)

end KnownObjects.Wire
