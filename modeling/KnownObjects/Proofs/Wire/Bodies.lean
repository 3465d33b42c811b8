import KnownObjects.Proofs.Wire.Delivery

/-!
# Frames stay in step

The reader of a frame takes the whole body off the stream before it looks into it, so what it makes of one body does not reach the frames that follow, whether there was a message in it or not. That holds for bodies of any content: nothing here asks that they were written by this library.

What the reader makes of a body is said by `Taken`. A decoder that is `Local` takes a front part of the bytes that it is given and does not look at what follows that part, so a body holds a message if and only if a front part of it spells one. Locality goes through binds, as `Reads` does.
-/

namespace KnownObjects.Wire

variable {α β : Type}

/-- The decoder takes a front part of the bytes, and would take the same part whatever followed it. -/
def Local (d : Decoder α) : Prop :=
  ∀ bytes x rest, d.run bytes = .ok (x, rest) → ∃ part, bytes = part ++ rest ∧ Reads d part x

theorem pure_local (x : α) : Local (pure x) := by
  intro bytes y rest h
  obtain ⟨rfl, rfl⟩ := Prod.mk.inj (Except.ok.inj h)
  exact ⟨[], rfl, pure_reads x⟩

theorem throw_local (e : DecodeError) : Local (throw e : Decoder α) :=
  fun _ _ _ h => nomatch (show Except.error e = Except.ok _ from h)

theorem Local.bind {d : Decoder α} {f : α → Decoder β} (hd : Local d) (hf : ∀ x, Local (f x)) : Local (d >>= f) := by
  intro bytes y rest h
  rw [StateT.run_bind] at h
  cases hfirst : d.run bytes with
  | error e =>
    rw [hfirst] at h
    exact nomatch (show Except.error e = Except.ok _ from h)
  | ok p =>
    obtain ⟨x, middle⟩ := p
    rw [hfirst] at h
    obtain ⟨head, rfl, hhead⟩ := hd bytes x middle hfirst
    obtain ⟨tail, rfl, htail⟩ := hf x middle y rest h
    exact ⟨head ++ tail, (List.append_assoc _ _ _).symm, hhead.bind htail⟩

theorem Local.map {d : Decoder α} (hd : Local d) (f : α → β) : Local (f <$> d) := by
  rw [map_eq_pure_bind]
  exact hd.bind fun x => pure_local (f x)

/-- A front part that is decoded decides what is decoded of the whole. -/
theorem Local.run_of_prefix {d : Decoder α} (hd : Local d) {part body : List UInt8} (hpart : part <+: body) {x : α}
    {rest : List UInt8} (h : d.run part = .ok (x, rest)) : ∃ left, d.run body = .ok (x, left) := by
  obtain ⟨next, rfl⟩ := hpart
  obtain ⟨head, rfl, hhead⟩ := hd part x rest h
  exact ⟨rest ++ next, by rw [List.append_assoc, hhead]⟩

/-! ### The parts of a message -/

/-- A number ends with its first byte that has no continuation bit, or with the last byte that it may have. -/
theorem readVarint_local (more top : Nat) : Local (readVarint more top) := by
  induction more with
  | zero =>
    intro bytes n rest h
    cases bytes with
    | nil => exact nomatch (show Except.error DecodeError.endOfBody = Except.ok _ from h)
    | cons b bytes =>
      change (if b.toNat ≤ top then .ok (b.toNat, bytes) else .error DecodeError.badVarint) = Except.ok _ at h
      split at h
      · rename_i hlast
        obtain ⟨rfl, rfl⟩ := Prod.mk.inj (Except.ok.inj h)
        exact ⟨[b], rfl, fun next => if_pos hlast⟩
      · cases h
  | succ more ih =>
    intro bytes n rest h
    cases bytes with
    | nil => exact nomatch (show Except.error DecodeError.endOfBody = Except.ok _ from h)
    | cons b bytes =>
      change readVarint (more + 1) top (b :: bytes) = Except.ok _ at h
      rw [readVarint] at h
      split at h
      · rename_i hlast
        obtain ⟨rfl, rfl⟩ := Prod.mk.inj (Except.ok.inj h)
        exact ⟨[b], rfl, fun next => if_pos hlast⟩
      · rename_i hmore
        split at h
        · rename_i m after hm
          obtain ⟨rfl, rfl⟩ := Prod.mk.inj (Except.ok.inj h)
          obtain ⟨part, rfl, hpart⟩ := ih bytes m after hm
          refine ⟨b :: part, rfl, fun next => ?_⟩
          change readVarint (more + 1) top (b :: (part ++ next)) = _
          rw [readVarint, if_neg hmore, show readVarint more top (part ++ next) = .ok (m, next) from hpart next]
        · cases h

theorem takeBytes_local (count : Nat) : Local (takeBytes count) := by
  intro bytes taken rest h
  change takeBytes count bytes = Except.ok _ at h
  rw [takeBytes] at h
  split at h
  · cases h
  · rename_i hlength
    obtain ⟨rfl, rfl⟩ := Prod.mk.inj (Except.ok.inj h)
    have hcount : (bytes.take count).length = count :=
      Nat.le_antisymm (List.length_take_le _ _) (Nat.le_of_not_lt hlength)
    have hreads := takeBytes_reads (bytes.take count)
    rw [hcount] at hreads
    exact ⟨bytes.take count, (List.take_append_drop count bytes).symm, hreads⟩

theorem word32_local : Local (decode : Decoder UInt32) := (readVarint_local 4 0x0f).map UInt32.ofNat

theorem word64_local : Local (decode : Decoder UInt64) := (readVarint_local 9 0x01).map UInt64.ofNat

theorem index_local : Local (decode : Decoder Index) := word32_local.map Index.mk

theorem handle_local : Local (decode : Decoder Handle) := word32_local.map Handle.mk

theorem address_local : Local (decode : Decoder Address) := word64_local.map Address.mk

theorem text_local : Local (decode : Decoder String) := by
  apply Local.bind word64_local
  intro length
  apply (takeBytes_local length.toNat).bind
  intro bytes
  split
  · exact pure_local _
  · exact throw_local _

theorem variant_local : Local readVariant := word32_local.map UInt32.toNat

/-! ### Messages -/

theorem slot_local : Local (decode : Decoder Slot) := by
  apply variant_local.bind
  intro variant
  split
  · exact pure_local _
  · exact handle_local.map Slot.ref
  · exact throw_local _

theorem location_local : Local (decode : Decoder Location) := by
  apply variant_local.bind
  intro variant
  split
  · exact handle_local.map Location.handle
  · exact handle_local.bind fun holder => word64_local.map (Location.field holder)
  · exact throw_local _

theorem request_local : Local (decode : Decoder Request) := by
  apply variant_local.bind
  intro variant
  split
  · exact address_local.map Request.getIndex
  · exact location_local.map Request.getIndexAt
  · exact location_local.map Request.getExistingIndexAt
  · exact index_local.map Request.getPointer
  · exact throw_local _

theorem response_local : Local (decode : Decoder Response) := by
  apply variant_local.bind
  intro variant
  split
  · exact index_local.bind fun i => slot_local.map fun s => Response.reply (.index i s)
  · exact index_local.map fun i => Response.reply (.existingIndex i)
  · exact address_local.map fun a => Response.reply (.pointer a)
  · exact text_local.map Response.refusal
  · exact throw_local _

/-! ### Bodies -/

section

variable [Codec α] {body : List UInt8}

/-- What a reader makes of a body: the one message that a front part of it spells, or an error if no front part of it is decoded. -/
inductive Taken (body : List UInt8) : Except ChannelError α → Prop
  | message {part : List UInt8} {message : α} : part <+: body →
    (decode : Decoder α).run part = .ok (message, []) →
    (∀ other, other <+: body → ∀ m rest, (decode : Decoder α).run other = .ok (m, rest) → m = message) →
    Taken body (.ok message)
  | malformed {cause : DecodeError} :
    (∀ other, other <+: body → ∀ m rest, (decode : Decoder α).run other ≠ .ok (m, rest)) →
    Taken body (.error (.malformed cause))

theorem taken_ofBody (hα : Local (decode : Decoder α)) (body : List UInt8) : Taken body (ofBody (α := α) body) := by
  simp only [ofBody]
  -- A front part is decoded to the same message as the whole, so the whole decides.
  cases hrun : (decode : Decoder α).run body with
  | ok p =>
    obtain ⟨message, left⟩ := p
    obtain ⟨part, hbody, hpart⟩ := hα body message left hrun
    have hwhole : (decode : Decoder α).run part = .ok (message, []) := by
      have hnil := hpart []
      rwa [List.append_nil] at hnil
    refine .message ⟨left, hbody.symm⟩ hwhole ?_
    intro other hother m rest hm
    obtain ⟨left', hsame⟩ := hα.run_of_prefix hother hm
    rw [hrun] at hsame
    exact (Prod.mk.inj (Except.ok.inj hsame)).1.symm
  | error cause =>
    refine .malformed ?_
    intro other hother m rest hm
    obtain ⟨left, hsame⟩ := hα.run_of_prefix hother hm
    rw [hrun] at hsame
    cases hsame

/-! ### Frames one after the other -/

variable (α) in
/-- What reading a number of frames one after the other brings. The reading goes on after an error. -/
def readTimes : Nat → Source → List (Except ChannelError (Option α)) × Source
  | 0, source => ([], source)
  | count + 1, source =>
    let (first, source) := readFrame source
    let others := readTimes count source
    (first :: others.1, others.2)

theorem readTimes_succ {count : Nat} {source rest : Source} {first : Except ChannelError (Option α)}
    (hread : readFrame source = (first, rest)) :
    readTimes α (count + 1) source = (first :: (readTimes α count rest).1, (readTimes α count rest).2) := by
  simp only [readTimes, hread]

/-- Behind frames that are read, the reading goes on as if they had not been there. -/
theorem readTimes_packed {bodies : List (List UInt8)} (hlength : ∀ body ∈ bodies, body.length ≤ maxFrame) (more : Nat)
    (source : Source) :
    readTimes α (bodies.length + more) { source with bytes := bodies.flatMap packed ++ source.bytes } =
      (bodies.map (fun body => some <$> ofBody body) ++ (readTimes α more source).1, (readTimes α more source).2) := by
  induction bodies with
  | nil => simp
  | cons body bodies ih =>
    have hread := readFrame_packed (α := α) (hlength body List.mem_cons_self)
      { source with bytes := bodies.flatMap packed ++ source.bytes }
    rw [List.flatMap_cons, List.append_assoc, List.length_cons, Nat.add_right_comm, readTimes_succ hread,
      ih fun b hb => hlength b (List.mem_cons_of_mem _ hb)]
    rfl

/-- At the end of the input there is no message, however often one is asked for. -/
theorem readTimes_of_end (count : Nat) :
    readTimes α count (.ofBytes []) = (List.replicate count (.ok none), .ofBytes []) := by
  induction count with
  | zero => rfl
  | succ count ih => rw [readTimes_succ (readFrame_of_short (by decide)), ih, List.replicate_succ]

/-! ### How reading ends -/

/-- How reading from a source can end: cleanly, at a frame that is too long, where the source has no more bytes, or at a malformed body. -/
inductive Halts (source : Source) : Except ChannelError Unit → Prop
  | clean : source.failing = false → Halts source (.ok ())
  | tooLarge {length : Nat} : maxFrame < length → Halts source (.error (.frameTooLarge length))
  | transfer : Halts source (.error (.transfer source.exhausted))
  | malformed (cause : DecodeError) : Halts source (.error (.malformed cause))

theorem failing_read {source rest : Source} {count : Nat} {result : Except TransferError (List UInt8)}
    (h : source.read count = (result, rest)) : rest.failing = source.failing := by
  unfold Source.read at h
  split at h <;> exact (Prod.mk.inj h).2 ▸ rfl

theorem eq_exhausted_of_read {source rest : Source} {count : Nat} {e : TransferError}
    (h : source.read count = (.error e, rest)) : e = source.exhausted := by
  unfold Source.read at h
  split at h
  · exact (Except.error.inj (Prod.mk.inj h).1).symm
  · exact nomatch (Prod.mk.inj h).1

theorem halts_of_readFrame {source rest : Source} {result : Except ChannelError (Option α)}
    (hread : readFrame source = (result, rest)) : rest.failing = source.failing ∧
      ((∃ message, result = .ok (some message)) ∨ Halts source (result.map fun _ => ())) := by
  unfold readFrame at hread
  split at hread
  · rename_i after hhead
    obtain ⟨rfl, rfl⟩ := Prod.mk.inj hread
    refine ⟨failing_read hhead, Or.inr (.clean ?_)⟩
    have hend := eq_exhausted_of_read hhead
    unfold Source.exhausted at hend
    split at hend
    · exact nomatch hend
    · rename_i hworking
      exact Bool.not_eq_true _ ▸ hworking
  · rename_i e after _ hhead
    obtain ⟨rfl, rfl⟩ := Prod.mk.inj hread
    obtain rfl := eq_exhausted_of_read hhead
    exact ⟨failing_read hhead, Or.inr .transfer⟩
  · rename_i head middle hhead
    have hmiddle := failing_read hhead
    dsimp only at hread
    split at hread
    · rename_i hlong
      obtain ⟨rfl, rfl⟩ := Prod.mk.inj hread
      exact ⟨hmiddle, Or.inr (.tooLarge hlong)⟩
    split at hread
    · rename_i e after hbody
      obtain ⟨rfl, rfl⟩ := Prod.mk.inj hread
      obtain rfl := eq_exhausted_of_read hbody
      have hexhausted : middle.exhausted = source.exhausted := by simp only [Source.exhausted, hmiddle]
      rw [hexhausted]
      exact ⟨(failing_read hbody).trans hmiddle, Or.inr .transfer⟩
    · rename_i body after hbody
      obtain ⟨rfl, rfl⟩ := Prod.mk.inj hread
      refine ⟨(failing_read hbody).trans hmiddle, ?_⟩
      unfold ofBody
      split
      · exact Or.inl ⟨_, rfl⟩
      · exact Or.inr (.malformed _)

theorem Halts.of_failing_eq {source rest : Source} (h : rest.failing = source.failing) {ending : Except ChannelError Unit}
    (hrest : Halts rest ending) : Halts source ending := by
  have hexhausted : rest.exhausted = source.exhausted := by simp only [Source.exhausted, h]
  cases hrest with
  | clean hworking => exact .clean (h ▸ hworking)
  | tooLarge hlong => exact .tooLarge hlong
  | transfer => exact hexhausted ▸ .transfer
  | malformed cause => exact .malformed cause

/-- Reading messages ends in one of these ways, whatever the bytes are. -/
theorem readFrames_halts (source : Source) : Halts source (readFrames (α := α) source).2 := by
  induction source using readFrames.induct (α := α) with
  | case1 source e rest hread =>
    rw [readFrames_of_error hread]
    exact (halts_of_readFrame hread).2.resolve_left (by simp)
  | case2 source rest hread =>
    rw [readFrames_of_end hread]
    exact (halts_of_readFrame hread).2.resolve_left (by simp)
  | case3 source message rest hread ih =>
    rw [readFrames_of_message hread]
    exact ih.of_failing_eq (halts_of_readFrame hread).1

end

/-- Frames with any bodies, read one after the other. Each reading brings what its own body holds. -/
structure InStep (α : Type) [Codec α] (bodies : List (List UInt8)) : Prop where
  /-- What follows the frames is left. -/
  read : ∀ source : Source,
    readTimes α bodies.length { source with bytes := bodies.flatMap packed ++ source.bytes } =
      (bodies.map fun body => some <$> ofBody body, source)
  taken : ∀ body ∈ bodies, Taken body (ofBody (α := α) body)
  /-- If nothing follows them, the input ends cleanly behind the last one. -/
  ended : ∀ more, readTimes α (bodies.length + more) (.ofBytes (bodies.flatMap packed)) =
    ((bodies.map fun body => some <$> ofBody body) ++ List.replicate more (.ok none), .ofBytes [])

theorem Local.inStep [Codec α] (hα : Local (decode : Decoder α)) {bodies : List (List UInt8)}
    (hlength : ∀ body ∈ bodies, body.length ≤ maxFrame) : InStep α bodies where
  read source := by
    have hread := readTimes_packed (α := α) hlength 0 source
    rwa [Nat.add_zero, show readTimes α 0 source = ([], source) from rfl, List.append_nil] at hread
  taken body _ := taken_ofBody hα body
  ended more := by
    have hread := readTimes_packed (α := α) hlength more (.ofBytes [])
    rw [readTimes_of_end] at hread
    change readTimes α _ ⟨bodies.flatMap packed ++ [], false⟩ = _ at hread
    rwa [List.append_nil] at hread

end KnownObjects.Wire
