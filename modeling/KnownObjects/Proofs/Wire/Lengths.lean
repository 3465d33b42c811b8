import KnownObjects.Client
import KnownObjects.Proofs.Heap.WellFormed
import KnownObjects.Proofs.Wire.RoundTrip

/-!
# Messages fit their frames

A frame takes 65536 bytes, and no message comes near that. Requests and replies are a few numbers, each of at most ten bytes. A refusal is a text, and every text with which a client refuses is made of a fixed phrase and the digits of two or three machine words.
-/

namespace KnownObjects

/-! ### Texts -/

namespace Text

/-- A character takes at most four bytes. -/
theorem size_ofList_le (l : List Char) : (String.ofList l).utf8ByteSize ≤ 4 * l.length := by
  induction l with
  | nil => decide
  | cons c l ih =>
    rw [String.ofList_cons, String.utf8ByteSize_append, String.utf8ByteSize_singleton]
    have hc := c.utf8Size_le_four
    simp only [List.length_cons]
    omega

theorem size_decimal_le {n : Nat} (hn : n < 18446744073709551616) : (toString n).utf8ByteSize ≤ 80 := by
  have hdigits : (Nat.toDigits 10 n).length ≤ 20 := (Nat.length_toDigits_le_iff (by decide) (by decide)).2 (by omega)
  have hsize := size_ofList_le (Nat.toDigits 10 n)
  rw [← Nat.repr_eq_ofList_toDigits] at hsize
  show n.repr.utf8ByteSize ≤ 80
  omega

theorem size_hexFilled_le {n : Nat} (hn : n < 18446744073709551616) : (hexFilled 12 n).utf8ByteSize ≤ 112 := by
  have hdigits : (Nat.toDigits 16 n).length ≤ 16 := (Nat.length_toDigits_le_iff (by decide) (by decide)).2 (by omega)
  have hzeros := size_ofList_le (List.replicate (12 - (Nat.toDigits 16 n).length) '0')
  have hhex := size_ofList_le (Nat.toDigits 16 n)
  rw [List.length_replicate] at hzeros
  simp only [hexFilled, hex]
  rw [String.utf8ByteSize_append]
  omega

end Text

theorem Address.size_text_le (a : Address) : a.text.utf8ByteSize ≤ 114 := by
  have hhex := Text.size_hexFilled_le a.toNat_lt
  simp only [Address.text]
  rw [String.utf8ByteSize_append, show "0x".utf8ByteSize = 2 from rfl]
  omega

theorem Handle.toNat_lt (h : Handle) : h.toNat < 4294967296 := h.raw.toNat_lt

theorem Handle.size_text_le (h : Handle) : h.text.utf8ByteSize ≤ 82 := by
  have hdecimal := Text.size_decimal_le (Nat.lt_trans h.toNat_lt (by decide))
  simp only [Handle.text]
  rw [String.utf8ByteSize_append, show "h#".utf8ByteSize = 2 from rfl]
  omega

theorem Handle.size_debugText_le (h : Handle) : h.debugText.utf8ByteSize ≤ 88 := by
  have hdecimal := Text.size_decimal_le (Nat.lt_trans h.toNat_lt (by decide))
  simp only [Handle.debugText]
  rw [String.utf8ByteSize_append, String.utf8ByteSize_append, show "Handle(".utf8ByteSize = 7 from rfl,
    show ")".utf8ByteSize = 1 from rfl]
  omega

theorem Location.size_debugText_le (l : Location) : l.debugText.utf8ByteSize ≤ 200 := by
  cases l with
  | handle h =>
    have hhandle := h.size_debugText_le
    unfold Location.debugText
    rw [String.utf8ByteSize_append, String.utf8ByteSize_append, show "Handle(".utf8ByteSize = 7 from rfl,
      show ")".utf8ByteSize = 1 from rfl]
    omega
  | field holder slot =>
    have hhandle := holder.size_debugText_le
    have hslot := Text.size_decimal_le slot.toNat_lt
    unfold Location.debugText
    simp only [String.utf8ByteSize_append]
    rw [show "Field \x7b holder: ".utf8ByteSize = 16 from rfl, show ", field: ".utf8ByteSize = 9 from rfl,
      show " \x7d".utf8ByteSize = 2 from rfl]
    omega

theorem Index.size_text_le (i : Index) : i.text.utf8ByteSize ≤ 80 := by
  simp only [Index.text]
  split
  · decide
  · exact Text.size_decimal_le (Nat.lt_trans i.toNat_lt (by decide))

/-! ### Refusals -/

theorem Fatal.size_indexOutOfRange_le (i bound : Index) : (indexOutOfRange i bound).message.utf8ByteSize ≤ 300 := by
  have hi := i.size_text_le
  have hbound := bound.size_text_le
  unfold Fatal.message
  simp only [String.utf8ByteSize_append]
  rw [show "index ".utf8ByteSize = 6 from rfl, show " must be in range 0..".utf8ByteSize = 21 from rfl]
  omega

namespace HeapError

/-- The errors of reads. None of them names a class or a field. -/
inductive OfRead : HeapError → Prop
  | invalidHandle (handle : Handle) : OfRead (.invalidHandle handle)
  | staleAddress (address : Address) : OfRead (.staleAddress address)
  | fieldOutOfRange (address : Address) (slot : UInt64) : OfRead (.fieldOutOfRange address slot)
  | notAReference (location : Location) : OfRead (.notAReference location)

theorem OfRead.size_le {e : HeapError} (he : e.OfRead) : e.message.utf8ByteSize ≤ 300 := by
  cases he with
  | invalidHandle h =>
    have hhandle := h.size_text_le
    show ("handle " ++ h.text ++ " does not exist").utf8ByteSize ≤ 300
    rw [String.utf8ByteSize_append, String.utf8ByteSize_append, show "handle ".utf8ByteSize = 7 from rfl,
      show " does not exist".utf8ByteSize = 15 from rfl]
    omega
  | staleAddress a =>
    have ha := a.size_text_le
    show ("no live object at " ++ a.text).utf8ByteSize ≤ 300
    rw [String.utf8ByteSize_append, show "no live object at ".utf8ByteSize = 18 from rfl]
    omega
  | fieldOutOfRange a slot =>
    have ha := a.size_text_le
    have hslot := Text.size_decimal_le slot.toNat_lt
    show ("object at " ++ a.text ++ " has no field slot " ++ toString slot.toNat).utf8ByteSize ≤ 300
    simp only [String.utf8ByteSize_append]
    rw [show "object at ".utf8ByteSize = 10 from rfl, show " has no field slot ".utf8ByteSize = 19 from rfl]
    omega
  | notAReference location =>
    have hlocation := location.size_debugText_le
    show (location.debugText ++ " does not hold a reference").utf8ByteSize ≤ 300
    rw [String.utf8ByteSize_append, show " does not hold a reference".utf8ByteSize = 26 from rfl]
    omega

end HeapError

namespace Heap

variable {h : Heap} {e : HeapError}

theorem ofRead_of_resolve {handle : Handle} (herror : h.resolve handle = .error e) : e.OfRead := by
  unfold resolve at herror
  split at herror
  · simp at herror
  · obtain rfl := Except.error.inj herror
    exact .invalidHandle handle

theorem ofRead_of_fieldAt {a : Address} {slot : UInt64} (herror : h.fieldAt a slot = .error e) : e.OfRead := by
  rcases Except.bind_eq_error_iff.1 herror with hobject | ⟨o, -, hvalue⟩
  · unfold object at hobject
    split at hobject
    · simp at hobject
    · obtain rfl := Except.error.inj hobject
      exact .staleAddress a
  · split at hvalue
    · simp at hvalue
    · obtain rfl := Except.error.inj hvalue
      exact .fieldOutOfRange a slot

theorem ofRead_of_read {location : Location} (herror : h.read location = .error e) : e.OfRead := by
  cases location with
  | handle handle => exact ofRead_of_resolve herror
  | field holder slot =>
    rcases Except.bind_eq_error_iff.1 herror with hholder | ⟨a, -, herror⟩
    · exact ofRead_of_resolve hholder
    rcases Except.bind_eq_error_iff.1 herror with hfield | ⟨v, -, hreference⟩
    · exact ofRead_of_fieldAt hfield
    split at hreference
    · simp at hreference
    · obtain rfl := Except.error.inj hreference
      exact .notAReference _

end Heap

/-! ### Messages -/

namespace Wire

theorem length_varint_le (k : Nat) : ∀ n < 128 ^ (k + 1), (varint n).length ≤ k + 1 := by
  induction k with
  | zero =>
    intro n hn
    rw [varint, if_pos (by omega)]
    exact Nat.le_refl 1
  | succ k ih =>
    intro n hn
    rw [varint]
    split
    · exact Nat.succ_le_succ (Nat.zero_le _)
    · have hrest := ih (n / 128) (by
        rw [Nat.div_lt_iff_lt_mul (by decide), ← Nat.pow_succ]
        exact hn)
      rw [List.length_cons]
      omega

theorem length_word32_le (n : UInt32) : (encode n).length ≤ 5 :=
  length_varint_le 4 n.toNat (Nat.lt_trans n.toNat_lt (by decide))

theorem length_word64_le (n : UInt64) : (encode n).length ≤ 10 :=
  length_varint_le 9 n.toNat (Nat.lt_trans n.toNat_lt (by decide))

theorem length_variant_le {k : Nat} (hk : k < 128) : (varint k).length ≤ 1 := length_varint_le 0 k hk

theorem length_index_le (i : Index) : (encode i).length ≤ 5 := length_word32_le i.raw

theorem length_handle_le (h : Handle) : (encode h).length ≤ 5 := length_word32_le h.raw

theorem length_address_le (a : Address) : (encode a).length ≤ 10 := length_word64_le a.raw

theorem length_slot_le (s : Slot) : (encode s).length ≤ 6 := by
  cases s with
  | null => exact Nat.le_trans (length_variant_le (show 0 < 128 by decide)) (by decide)
  | ref h =>
    have hvariant := length_variant_le (show 1 < 128 by decide)
    have hhandle := length_handle_le h
    show (varint 1 ++ encode h).length ≤ 6
    rw [List.length_append]
    omega

theorem length_location_le (l : Location) : (encode l).length ≤ 16 := by
  cases l with
  | handle h =>
    have hvariant := length_variant_le (show 0 < 128 by decide)
    have hhandle := length_handle_le h
    show (varint 0 ++ encode h).length ≤ 16
    rw [List.length_append]
    omega
  | field holder slot =>
    have hvariant := length_variant_le (show 1 < 128 by decide)
    have hholder := length_handle_le holder
    have hslot := length_word64_le slot
    show (varint 1 ++ encode holder ++ encode slot).length ≤ 16
    rw [List.length_append, List.length_append]
    omega

theorem length_request_le (request : Request) : (encode request).length ≤ 17 := by
  have happend : ∀ (k : Nat) (bytes : List UInt8), k < 128 → bytes.length ≤ 16 → (varint k ++ bytes).length ≤ 17 := by
    intro k bytes hk hbytes
    have hvariant := length_variant_le hk
    rw [List.length_append]
    omega
  cases request with
  | getIndex a => exact happend 0 _ (by decide) (Nat.le_trans (length_address_le a) (by decide))
  | getIndexAt l => exact happend 1 _ (by decide) (length_location_le l)
  | getExistingIndexAt l => exact happend 2 _ (by decide) (length_location_le l)
  | getPointer i => exact happend 3 _ (by decide) (Nat.le_trans (length_index_le i) (by decide))

theorem length_reply_le (reply : Reply) : (encode (Response.reply reply)).length ≤ 12 := by
  cases reply with
  | index i s =>
    have hvariant := length_variant_le (show 0 < 128 by decide)
    have hindex := length_index_le i
    have hslot := length_slot_le s
    show (varint 0 ++ encode i ++ encode s).length ≤ 12
    rw [List.length_append, List.length_append]
    omega
  | existingIndex i =>
    have hvariant := length_variant_le (show 1 < 128 by decide)
    have hindex := length_index_le i
    show (varint 1 ++ encode i).length ≤ 12
    rw [List.length_append]
    omega
  | pointer a =>
    have hvariant := length_variant_le (show 2 < 128 by decide)
    have haddress := length_address_le a
    show (varint 2 ++ encode a).length ≤ 12
    rw [List.length_append]
    omega

theorem length_utf8 (text : String) : (utf8 text).length = text.utf8ByteSize := rfl

theorem length_refusal_le {text : String} (htext : text.utf8ByteSize ≤ 300) :
    (encode (Response.refusal text)).length ≤ 303 := by
  have hvariant := length_variant_le (show 3 < 128 by decide)
  have hcount := length_varint_le 1 (utf8 text).length (by rw [length_utf8]; omega)
  show (varint 3 ++ (varint (utf8 text).length ++ utf8 text)).length ≤ 303
  rw [List.length_append, List.length_append, length_utf8]
  rw [length_utf8] at hcount
  omega

end Wire

end KnownObjects
