import KnownObjects.Wire.Frame
import Mathlib.Algebra.Group.Nat.Defs

/-!
# What is written is read back

`Reads` says that a decoder takes a value from the front of every body that starts with given bytes, and leaves what follows them. It goes through binds, so the round trip of a message is put together from those of its parts in the order in which they are written. A frame adds the length of the body, which the reader gets back as long as the body is within the limit.
-/

namespace KnownObjects.Wire

variable {α β : Type}

def Reads (d : Decoder α) (bytes : List UInt8) (x : α) : Prop :=
  ∀ rest, d.run (bytes ++ rest) = .ok (x, rest)

theorem pure_reads (x : α) : Reads (pure x) [] x := fun _ => rfl

theorem Reads.bind {d : Decoder α} {f : α → Decoder β} {head tail : List UInt8} {x : α} {y : β}
    (hd : Reads d head x) (hf : Reads (f x) tail y) : Reads (d >>= f) (head ++ tail) y := by
  intro rest
  rw [List.append_assoc, StateT.run_bind, hd]
  exact hf rest

theorem Reads.bind_nil {d : Decoder α} {f : α → Decoder β} {bytes : List UInt8} {x : α} {y : β}
    (hd : Reads d bytes x) (hf : Reads (f x) [] y) : Reads (d >>= f) bytes y := by
  rw [← List.append_nil bytes]
  exact hd.bind hf

theorem Reads.map {d : Decoder α} {bytes : List UInt8} {x : α} (hd : Reads d bytes x) (f : α → β) :
    Reads (f <$> d) bytes (f x) := by
  rw [map_eq_pure_bind]
  exact hd.bind_nil (pure_reads (f x))

/-! ### Numbers -/

theorem toNat_byte {n : Nat} (hn : n < 256) : (UInt8.ofNat n).toNat = n := UInt8.toNat_ofNat_of_lt' hn

/-- The reader that allows `more` further bytes reads every number that needs no more of them. -/
theorem varint_reads {top : Nat} (htop : top < 128) (more : Nat) :
    ∀ n < (top + 1) * 128 ^ more, Reads (readVarint more top) (varint n) n := by
  induction more with
  | zero =>
    intro n hn rest
    rw [Nat.pow_zero, Nat.mul_one] at hn
    rw [varint, if_pos (by omega), List.singleton_append]
    show readVarint 0 top (UInt8.ofNat n :: rest) = _
    simp only [readVarint, toNat_byte (show n < 256 by omega)]
    rw [if_pos (by omega)]
  | succ more ih =>
    intro n hn rest
    rw [varint]
    by_cases hlast : n < 128
    · rw [if_pos hlast, List.singleton_append]
      show readVarint (more + 1) top (UInt8.ofNat n :: rest) = _
      simp only [readVarint, toNat_byte (show n < 256 by omega)]
      rw [if_pos hlast]
    · -- The first byte carries the lowest seven digits, and `n / 128` is within the bound for one byte less.
      have hrest : readVarint more top (varint (n / 128) ++ rest) = .ok (n / 128, rest) := by
        apply ih
        rw [Nat.div_lt_iff_lt_mul (by decide), Nat.mul_assoc, ← Nat.pow_succ]
        exact hn
      have hsum : n % 128 + 128 - 128 + 128 * (n / 128) = n := by omega
      rw [if_neg hlast, List.cons_append]
      show readVarint (more + 1) top (UInt8.ofNat (n % 128 + 128) :: (varint (n / 128) ++ rest)) = _
      simp only [readVarint, toNat_byte (show n % 128 + 128 < 256 by omega)]
      rw [if_neg (by omega), hrest]
      simp only [hsum]

theorem word32_reads (n : UInt32) : Reads decode (encode n) n := by
  have hn := n.toNat_lt
  have hread := (varint_reads (show 0x0f < 128 by decide) 4 n.toNat (by omega)).map UInt32.ofNat
  rwa [UInt32.ofNat_toNat] at hread

theorem word64_reads (n : UInt64) : Reads decode (encode n) n := by
  have hn := n.toNat_lt
  have hread := (varint_reads (show 0x01 < 128 by decide) 9 n.toNat (by omega)).map UInt64.ofNat
  rwa [UInt64.ofNat_toNat] at hread

theorem index_reads (i : Index) : Reads decode (encode i) i := (word32_reads i.raw).map Index.mk

theorem handle_reads (h : Handle) : Reads decode (encode h) h := (word32_reads h.raw).map Handle.mk

theorem address_reads (a : Address) : Reads decode (encode a) a := (word64_reads a.raw).map Address.mk

/-! ### Texts -/

theorem takeBytes_reads (bytes : List UInt8) : Reads (takeBytes bytes.length) bytes bytes := by
  intro rest
  show takeBytes bytes.length (bytes ++ rest) = _
  simp only [takeBytes]
  rw [List.take_left, List.drop_left, if_neg (Nat.lt_irrefl _)]

@[simp] theorem ofUtf8?_utf8 (text : String) : ofUtf8? (utf8 text) = some text := by
  simp only [ofUtf8?, utf8, String.fromUTF8?]
  simp [text.isValidUTF8, String.fromUTF8]

theorem text_reads {text : String} (hlength : (utf8 text).length < 18446744073709551616) :
    Reads decode (encode text) text := by
  have hword := word64_reads (UInt64.ofNat (utf8 text).length)
  have hnat : (UInt64.ofNat (utf8 text).length).toNat = (utf8 text).length := UInt64.toNat_ofNat_of_lt' hlength
  have hbytes : encode (UInt64.ofNat (utf8 text).length) = varint (utf8 text).length := congrArg varint hnat
  rw [hbytes] at hword
  apply Reads.bind hword
  rw [hnat]
  apply (takeBytes_reads (utf8 text)).bind_nil
  rw [ofUtf8?_utf8]
  exact pure_reads text

/-! ### Messages -/

theorem variant_reads (k : Nat) (hk : k < 4294967296) : Reads readVariant (varint k) k := by
  have hread := (word32_reads (UInt32.ofNat k)).map UInt32.toNat
  have hnat : (UInt32.ofNat k).toNat = k := UInt32.toNat_ofNat_of_lt' hk
  rw [hnat] at hread
  have hbytes : encode (UInt32.ofNat k) = varint k := congrArg varint hnat
  rw [hbytes] at hread
  exact hread

theorem slot_reads (s : Slot) : Reads decode (encode s) s := by
  cases s with
  | null =>
    show Reads _ (varint 0) _
    rw [← List.append_nil (varint 0)]
    exact (variant_reads 0 (by decide)).bind (pure_reads _)
  | ref h => exact (variant_reads 1 (by decide)).bind ((handle_reads h).map Slot.ref)

theorem location_reads (l : Location) : Reads decode (encode l) l := by
  cases l with
  | handle h => exact (variant_reads 0 (by decide)).bind ((handle_reads h).map Location.handle)
  | field holder slot =>
    show Reads _ (varint 1 ++ encode holder ++ encode slot) _
    rw [List.append_assoc]
    exact (variant_reads 1 (by decide)).bind ((handle_reads holder).bind ((word64_reads slot).map _))

theorem request_reads (request : Request) : Reads decode (encode request) request := by
  cases request with
  | getIndex a => exact (variant_reads 0 (by decide)).bind ((address_reads a).map Request.getIndex)
  | getIndexAt l => exact (variant_reads 1 (by decide)).bind ((location_reads l).map Request.getIndexAt)
  | getExistingIndexAt l =>
    exact (variant_reads 2 (by decide)).bind ((location_reads l).map Request.getExistingIndexAt)
  | getPointer i => exact (variant_reads 3 (by decide)).bind ((index_reads i).map Request.getPointer)

theorem reply_reads (reply : Reply) : Reads decode (encode (Response.reply reply)) (Response.reply reply) := by
  cases reply with
  | index i s =>
    show Reads _ (varint 0 ++ encode i ++ encode s) _
    rw [List.append_assoc]
    exact (variant_reads 0 (by decide)).bind ((index_reads i).bind ((slot_reads s).map fun s => Response.reply (.index i s)))
  | existingIndex i =>
    exact (variant_reads 1 (by decide)).bind ((index_reads i).map fun i => Response.reply (.existingIndex i))
  | pointer a => exact (variant_reads 2 (by decide)).bind ((address_reads a).map fun a => Response.reply (.pointer a))

theorem refusal_reads {text : String} (hlength : (utf8 text).length < 18446744073709551616) :
    Reads decode (encode (Response.refusal text)) (Response.refusal text) :=
  (variant_reads 3 (by decide)).bind ((text_reads hlength).map Response.refusal)

/-! ### Frames -/

theorem announced_header {n : Nat} (hn : n < 4294967296) : announced (header n) = n := by
  simp only [header]
  simp only [announced, UInt8.toNat_ofNat']
  omega

theorem read_append (s : Source) (bytes : List UInt8) :
    Source.read { s with bytes := bytes ++ s.bytes } bytes.length = (.ok bytes, s) := by
  simp only [Source.read]
  rw [List.take_left, List.drop_left, if_neg (Nat.lt_irrefl _)]

/-- A body in its frame, whatever it holds. -/
def packed (body : List UInt8) : List UInt8 := header body.length ++ body

/-- The reader of a frame takes its whole body, and nothing behind it. -/
theorem readFrame_packed [Codec α] {body : List UInt8} (hlength : body.length ≤ maxFrame) (s : Source) :
    readFrame (α := α) { s with bytes := packed body ++ s.bytes } = (some <$> ofBody body, s) := by
  have hmax : maxFrame = 65536 := rfl
  have hhead := read_append { s with bytes := body ++ s.bytes } (header body.length)
  rw [show (header body.length).length = 4 from rfl, ← List.append_assoc] at hhead
  simp only [readFrame, packed]
  rw [hhead]
  simp only
  rw [announced_header (by omega), if_neg (by omega), read_append s body]

/-- A message that was framed within the limit is the next one to be read, and all that follows it is left. -/
theorem readFrame_frame [Codec α] {message : α} (hread : Reads decode (encode message) message)
    (hlength : (encode message).length ≤ maxFrame) (s : Source) :
    readFrame { s with bytes := frame message ++ s.bytes } = (.ok (some message), s) := by
  have hbody : ofBody (encode message) = .ok message := by
    have hall := hread []
    rw [List.append_nil] at hall
    simp only [ofBody]
    rw [hall]
  have hframe := readFrame_packed (α := α) hlength s
  rwa [hbody] at hframe

/-- A sink without a limit takes every frame that is within the limit of frames. -/
theorem writeFrame_frame [Codec α] {message : α} (hlength : (encode message).length ≤ maxFrame) {sink : Sink}
    (hsink : sink.capacity = none) :
    writeFrame message sink = (.ok (), { sink with written := sink.written ++ frame message }) := by
  have hwrite : ∀ (s : Sink) (bytes : List UInt8), s.capacity = none →
      s.write bytes = (.ok (), { s with written := s.written ++ bytes }) := by
    intro s bytes hs
    simp only [Sink.write, Sink.room]
    simp only [hs]
    rw [List.take_length, if_neg (Nat.lt_irrefl _)]
  simp only [writeFrame, frame]
  rw [if_neg (by omega)]
  rw [hwrite sink _ hsink]
  simp only
  rw [hwrite { sink with written := sink.written ++ header (encode message).length } _ hsink]
  rw [List.append_assoc]
  rfl

end KnownObjects.Wire
