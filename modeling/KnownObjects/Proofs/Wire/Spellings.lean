import KnownObjects.Proofs.Wire.Delivery

/-!
# What was read can be sent on

A reader takes more bodies than a writer makes: numbers may be spelled with more bytes than they need, and anything may follow the message. Among all bodies in which one message is read, the one that the writer makes is the shortest, and the only one of its length. So whoever passes on a message that was read never sends more than what came, and the limit on frames, which the body that came was within, is not met a second time.

`Consumes` says what a decoder has taken when it succeeds. It goes through binds in the order in which the parts are read, so the spelling of a message is compared part by part: the number of the alternative first, then each number in it, and the bytes of a text last.
-/

namespace KnownObjects.Wire

variable {α β : Type}

/-- The bytes are this spelling, or there are more of them. -/
def OrLonger (spelling bytes : List UInt8) : Prop := bytes = spelling ∨ spelling.length < bytes.length

namespace OrLonger

variable {spelling bytes next tail : List UInt8}

theorem refl (spelling : List UInt8) : OrLonger spelling spelling := Or.inl rfl

theorem length_le (h : OrLonger spelling bytes) : spelling.length ≤ bytes.length := by
  rcases h with rfl | hlonger
  · exact Nat.le_refl _
  · exact Nat.le_of_lt hlonger

theorem append (hhead : OrLonger spelling bytes) (htail : OrLonger next tail) :
    OrLonger (spelling ++ next) (bytes ++ tail) := by
  have hle := hhead.length_le
  have hle' := htail.length_le
  unfold OrLonger
  rw [List.length_append, List.length_append]
  rcases hhead with rfl | hlonger
  · rcases htail with rfl | hlonger
    · exact Or.inl rfl
    · right
      omega
  · right
    omega

theorem cons (b : UInt8) (h : OrLonger spelling bytes) : OrLonger (b :: spelling) (b :: bytes) :=
  (refl [b]).append h

theorem append_right (h : OrLonger spelling bytes) (rest : List UInt8) : OrLonger spelling (bytes ++ rest) := by
  have hrest : OrLonger [] rest := by
    cases rest with
    | nil => exact refl []
    | cons b rest => exact Or.inr (Nat.succ_pos _)
  have hall := h.append hrest
  rwa [List.append_nil] at hall

end OrLonger

/-- What the decoder takes is a front part of the bytes, which stands in a relation to what it makes of it. -/
def Consumes (d : Decoder α) (R : α → List UInt8 → Prop) : Prop :=
  ∀ bytes x rest, d.run bytes = .ok (x, rest) → ∃ part, bytes = part ++ rest ∧ R x part

section

variable {R : α → List UInt8 → Prop} {S : β → List UInt8 → Prop}

theorem pure_consumes {x : α} (hx : R x []) : Consumes (pure x) R := by
  intro bytes y rest h
  obtain ⟨rfl, rfl⟩ := Prod.mk.inj (Except.ok.inj h)
  exact ⟨[], rfl, hx⟩

theorem throw_consumes (e : DecodeError) : Consumes (throw e : Decoder α) R := by
  intro bytes x rest h
  cases (show Except.error e = Except.ok (x, rest) from h)

/-- The second decoder is asked about what it takes together with what the first one took. -/
theorem Consumes.bind {d : Decoder α} {f : α → Decoder β} (hd : Consumes d R)
    (hf : ∀ x head, R x head → Consumes (f x) fun y tail => S y (head ++ tail)) : Consumes (d >>= f) S := by
  intro bytes y rest h
  rw [StateT.run_bind] at h
  cases hfirst : d.run bytes with
  | error e =>
    rw [hfirst] at h
    cases (show Except.error e = Except.ok (y, rest) from h)
  | ok p =>
    obtain ⟨x, middle⟩ := p
    rw [hfirst] at h
    obtain ⟨head, rfl, hhead⟩ := hd bytes x middle hfirst
    obtain ⟨tail, rfl, htail⟩ := hf x head hhead middle y rest h
    exact ⟨head ++ tail, (List.append_assoc _ _ _).symm, htail⟩

theorem Consumes.map {d : Decoder α} (hd : Consumes d R) (f : α → β) (hf : ∀ x part, R x part → S (f x) part) :
    Consumes (f <$> d) S := by
  rw [map_eq_pure_bind]
  refine hd.bind fun x head hhead => pure_consumes ?_
  rw [List.append_nil]
  exact hf x head hhead

end

/-! ### Numbers -/

theorem one_le_length_varint (n : Nat) : 1 ≤ (varint n).length := by
  rw [varint]
  split <;> exact Nat.succ_pos _

/-- However a number is spelled, it is the number that its shortest spelling stands for, and it is within the bound that the bytes allow. -/
theorem readVarint_consumes {top : Nat} (htop : top < 128) (more : Nat) : Consumes (readVarint more top)
    fun n part => OrLonger (varint n) part ∧ n < (top + 1) * 128 ^ more := by
  have hsingle : ∀ b : UInt8, b.toNat < 128 → varint b.toNat = [b] := by
    intro b hb
    rw [varint, if_pos hb, UInt8.ofNat_toNat]
  induction more with
  | zero =>
    intro bytes n rest h
    cases bytes with
    | nil => cases (show Except.error DecodeError.endOfBody = Except.ok (n, rest) from h)
    | cons b bytes =>
      change (if b.toNat ≤ top then .ok (b.toNat, bytes) else .error DecodeError.badVarint) = Except.ok _ at h
      split at h
      · rename_i hlast
        obtain ⟨rfl, rfl⟩ := Prod.mk.inj (Except.ok.inj h)
        refine ⟨[b], rfl, ?_, by omega⟩
        rw [hsingle b (by omega)]
        exact .refl _
      · cases h
  | succ more ih =>
    intro bytes n rest h
    cases bytes with
    | nil => cases (show Except.error DecodeError.endOfBody = Except.ok (n, rest) from h)
    | cons b bytes =>
      change readVarint (more + 1) top (b :: bytes) = Except.ok _ at h
      rw [readVarint] at h
      have hbyte := b.toNat_lt
      have hbound : (top + 1) * 128 ^ (more + 1) = 128 * ((top + 1) * 128 ^ more) := by
        rw [Nat.pow_succ]
        ac_rfl
      have hpositive : 0 < (top + 1) * 128 ^ more := Nat.mul_pos (Nat.succ_pos top) (Nat.pow_pos (by decide))
      split at h
      · rename_i hlast
        obtain ⟨rfl, rfl⟩ := Prod.mk.inj (Except.ok.inj h)
        refine ⟨[b], rfl, ?_, by omega⟩
        rw [hsingle b hlast]
        exact .refl _
      · rename_i hmore
        split at h
        · rename_i m after hm
          obtain ⟨rfl, rfl⟩ := Prod.mk.inj (Except.ok.inj h)
          obtain ⟨part, rfl, hpart, hlt⟩ := ih bytes m after hm
          refine ⟨b :: part, rfl, ?_, by omega⟩
          by_cases hzero : m = 0
          · -- All further bytes are zeros, and the first one alone would have done.
            subst hzero
            have hlength := hpart.length_le
            have hone := one_le_length_varint 0
            rw [Nat.mul_zero, Nat.add_zero, varint, if_pos (by omega)]
            right
            simp only [List.length_cons, List.length_nil]
            omega
          · have hdigit : (b.toNat - 128 + 128 * m) % 128 + 128 = b.toNat := by omega
            have hrest : (b.toNat - 128 + 128 * m) / 128 = m := by omega
            rw [varint, if_neg (by omega), hdigit, hrest, UInt8.ofNat_toNat]
            exact hpart.cons b
        · cases h

/-- A decoder that reads a value from no fewer bytes than the value is written with. -/
def Frugal (d : Decoder α) [Codec α] : Prop := Consumes d fun x part => OrLonger (encode x) part

theorem word32_frugal : Frugal (decode : Decoder UInt32) := by
  apply (readVarint_consumes (show 0x0f < 128 by decide) 4).map UInt32.ofNat
  rintro n part ⟨hpart, hn⟩
  change OrLonger (varint (UInt32.ofNat n).toNat) part
  rwa [UInt32.toNat_ofNat_of_lt' (Nat.lt_of_lt_of_eq hn (by decide))]

theorem word64_frugal : Frugal (decode : Decoder UInt64) := by
  apply (readVarint_consumes (show 0x01 < 128 by decide) 9).map UInt64.ofNat
  rintro n part ⟨hpart, hn⟩
  change OrLonger (varint (UInt64.ofNat n).toNat) part
  rwa [UInt64.toNat_ofNat_of_lt' (Nat.lt_of_lt_of_eq hn (by decide))]

theorem index_frugal : Frugal (decode : Decoder Index) := word32_frugal.map Index.mk fun _ _ hpart => hpart

theorem handle_frugal : Frugal (decode : Decoder Handle) := word32_frugal.map Handle.mk fun _ _ hpart => hpart

theorem address_frugal : Frugal (decode : Decoder Address) := word64_frugal.map Address.mk fun _ _ hpart => hpart

theorem variant_consumes : Consumes readVariant fun k part => OrLonger (varint k) part :=
  word32_frugal.map UInt32.toNat fun _ _ hpart => hpart

/-! ### Texts -/

theorem takeBytes_consumes (count : Nat) :
    Consumes (takeBytes count) fun bytes part => bytes = part ∧ part.length = count := by
  intro bytes taken rest h
  change takeBytes count bytes = Except.ok _ at h
  rw [takeBytes] at h
  split at h
  · cases h
  · rename_i hlength
    obtain ⟨rfl, rfl⟩ := Prod.mk.inj (Except.ok.inj h)
    exact ⟨bytes.take count, (List.take_append_drop count bytes).symm, rfl,
      Nat.le_antisymm (List.length_take_le _ _) (Nat.le_of_not_lt hlength)⟩

/-- No two sequences of bytes are the same text. -/
theorem utf8_of_ofUtf8? {bytes : List UInt8} {text : String} (h : ofUtf8? bytes = some text) : utf8 text = bytes := by
  unfold ofUtf8? String.fromUTF8? at h
  split at h
  · rw [← Option.some.inj h]
    rfl
  · cases h

theorem text_frugal : Frugal (decode : Decoder String) := by
  apply Consumes.bind word64_frugal
  intro length head hhead
  apply Consumes.bind (takeBytes_consumes length.toNat)
  rintro bytes part ⟨rfl, hlength⟩
  split
  · rename_i text htext
    apply pure_consumes
    rw [List.append_nil]
    change OrLonger (varint (utf8 text).length ++ utf8 text) (head ++ bytes)
    rw [utf8_of_ofUtf8? htext, hlength]
    exact hhead.append (.refl bytes)
  · exact throw_consumes _

/-! ### Messages -/

theorem slot_frugal : Frugal (decode : Decoder Slot) := by
  apply Consumes.bind variant_consumes
  intro variant head hhead
  split
  · apply pure_consumes
    rw [List.append_nil]
    exact hhead
  · exact handle_frugal.map Slot.ref fun h part hpart => hhead.append hpart
  · exact throw_consumes _

theorem location_frugal : Frugal (decode : Decoder Location) := by
  apply Consumes.bind variant_consumes
  intro variant head hhead
  split
  · exact handle_frugal.map Location.handle fun h part hpart => hhead.append hpart
  · apply Consumes.bind handle_frugal
    intro holder middle hmiddle
    apply word64_frugal.map (Location.field holder)
    intro slot part hpart
    change OrLonger (varint 1 ++ encode holder ++ encode slot) (head ++ (middle ++ part))
    rw [← List.append_assoc]
    exact (hhead.append hmiddle).append hpart
  · exact throw_consumes _

theorem request_frugal : Frugal (decode : Decoder Request) := by
  apply Consumes.bind variant_consumes
  intro variant head hhead
  split
  · exact address_frugal.map Request.getIndex fun a part hpart => hhead.append hpart
  · exact location_frugal.map Request.getIndexAt fun l part hpart => hhead.append hpart
  · exact location_frugal.map Request.getExistingIndexAt fun l part hpart => hhead.append hpart
  · exact index_frugal.map Request.getPointer fun i part hpart => hhead.append hpart
  · exact throw_consumes _

theorem response_frugal : Frugal (decode : Decoder Response) := by
  apply Consumes.bind variant_consumes
  intro variant head hhead
  split
  · apply Consumes.bind index_frugal
    intro i middle hmiddle
    apply slot_frugal.map fun s => Response.reply (.index i s)
    intro s part hpart
    change OrLonger (varint 0 ++ encode i ++ encode s) (head ++ (middle ++ part))
    rw [← List.append_assoc]
    exact (hhead.append hmiddle).append hpart
  · exact index_frugal.map (fun i => Response.reply (.existingIndex i)) fun i part hpart => hhead.append hpart
  · exact address_frugal.map (fun a => Response.reply (.pointer a)) fun a part hpart => hhead.append hpart
  · exact text_frugal.map Response.refusal fun text part hpart => hhead.append hpart
  · exact throw_consumes _

/-! ### Bodies -/

section

variable [Codec α] {body : List UInt8} {message : α}

/-- Some reader takes this message from a frame with this body. -/
def Accepts (body : List UInt8) (message : α) : Prop :=
  body.length ≤ maxFrame ∧
    ∃ source : Source, (readFrame { source with bytes := packed body ++ source.bytes }).1 = .ok (some message)

theorem ofBody_of_accepts (h : Accepts body message) : ofBody body = .ok message := by
  obtain ⟨hlength, source, hread⟩ := h
  rw [readFrame_packed hlength] at hread
  cases hbody : ofBody (α := α) body with
  | error e =>
    rw [hbody] at hread
    cases hread
  | ok m =>
    rw [hbody] at hread
    exact congrArg Except.ok (Option.some.inj (Except.ok.inj hread))

theorem Frugal.orLonger_of_ofBody (hα : Frugal (decode : Decoder α)) (hbody : ofBody body = .ok message) :
    OrLonger (encode message) body := by
  unfold ofBody at hbody
  cases hrun : (decode : Decoder α).run body with
  | error e =>
    rw [hrun] at hbody
    cases hbody
  | ok p =>
    obtain ⟨m, rest⟩ := p
    rw [hrun] at hbody
    obtain rfl : m = message := Except.ok.inj hbody
    obtain ⟨part, rfl, hpart⟩ := hα body m rest hrun
    exact hpart.append_right rest

/-- Sending on a message that came in this body. -/
structure SentOn (body : List UInt8) (message : α) : Prop where
  /-- A sink without a limit takes the message, and its frame has the body that the message is written with. -/
  written : ∀ sink : Sink, sink.capacity = none →
    writeFrame message sink = (.ok (), { sink with written := sink.written ++ packed (encode message) })
  /-- The message is read from that frame again. -/
  read : ∀ source : Source,
    readFrame { source with bytes := packed (encode message) ++ source.bytes } = (.ok (some message), source)
  shrunk : (encode message).length ≤ body.length
  /-- Of the bodies from which the message is read there is no other one that is as short. -/
  shortest : ∀ other, Accepts other message → other ≠ encode message → (encode message).length < other.length
  /-- Whatever the sink, it is not the length of the message that keeps it from being sent. -/
  admitted : ∀ (sink : Sink) (length : Nat), (writeFrame message sink).1 ≠ .error (.frameTooLarge length)

theorem sentOn_of_accepts (hfrugal : Frugal (decode : Decoder α)) (hfaithful : Faithful α) (h : Accepts body message) :
    SentOn body message := by
  have hshrunk := (hfrugal.orLonger_of_ofBody (ofBody_of_accepts h)).length_le
  have hlength : (encode message).length ≤ maxFrame := Nat.le_trans hshrunk h.1
  constructor
  case written => exact fun sink hsink => writeFrame_frame hlength hsink
  case read => exact readFrame_frame (hfaithful message hlength) hlength
  case shrunk => exact hshrunk
  case shortest =>
    intro other hother hne
    exact (hfrugal.orLonger_of_ofBody (ofBody_of_accepts hother)).resolve_left hne
  case admitted =>
    intro sink length htoo
    rcases writeFrame_cases message sink with ⟨hlong, -⟩ | ⟨-, hwrite⟩ | ⟨-, rest, -, hwrite, -⟩
    · omega
    · rw [hwrite] at htoo
      cases htoo
    · rw [hwrite] at htoo
      cases htoo

end

/-- A type whose messages can be sent on from whatever body they came in. -/
def Relayed (α : Type) [Codec α] : Prop := ∀ (body : List UInt8) (message : α), Accepts body message → SentOn body message

/-- Requests, responses, locations and slots are sent on in no more bytes than they came in. -/
theorem relayed_every_message : Relayed Request ∧ Relayed Response ∧ Relayed Location ∧ Relayed Slot :=
  ⟨fun _ _ => sentOn_of_accepts request_frugal request_faithful,
    fun _ _ => sentOn_of_accepts response_frugal response_faithful,
    fun _ _ => sentOn_of_accepts location_frugal location_faithful,
    fun _ _ => sentOn_of_accepts slot_frugal slot_faithful⟩

/-- A question about the address 7 of which every number has as many bytes as it may have, with something behind it; and a refusal whose alternative and whose length have a byte too many. -/
theorem relayed_overlong_messages :
    SentOn [0x80, 0x80, 0x80, 0x80, 0x00, 0x87, 0x80, 0x80, 0x80, 0x80, 0x80, 0x80, 0x80, 0x80, 0x00, 0xff]
        (Request.getIndex ⟨7⟩) ∧
      SentOn [0x83, 0x00, 0x82, 0x00, 0x6e, 0x6f] (Response.refusal "no") :=
  ⟨relayed_every_message.1 _ _ ⟨by decide, .ofBytes [], by decide +kernel⟩,
    relayed_every_message.2.1 _ _ ⟨by decide, .ofBytes [], by decide +kernel⟩⟩

end KnownObjects.Wire
