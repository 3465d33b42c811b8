import KnownObjects.Proofs.Wire.Lengths

/-!
# What is reported as written is what is read

A sink with a limit can end in the middle of a frame. From then on it takes nothing, so what it holds are the frames of the messages that were reported as written, in order, and at most one frame that is cut short. The reader gets these messages back. What is left of the last frame shows at the end: less than a header looks like the end of the input, and more than that is an error.

The header and the body of a frame are written one after the other, which comes to the same as writing the whole frame at once. So every cut of a frame is the cut of one write.
-/

namespace KnownObjects.Wire

/-! ### Sinks -/

namespace Sink

variable {s : Sink} {bytes next : List UInt8}

theorem room_le (s : Sink) (count : Nat) : s.room count ≤ count := by
  unfold room
  split
  · exact Nat.min_le_left _ _
  · exact Nat.le_refl _

/-- A sink that takes nothing more. -/
def Full (s : Sink) : Prop := s.room 1 = 0

theorem Full.room_eq (hs : s.Full) (count : Nat) : s.room count = 0 := by
  unfold Full room at hs
  unfold room
  split at hs <;> omega

theorem write_of_room (hroom : s.room bytes.length = bytes.length) :
    s.write bytes = (.ok (), { s with written := s.written ++ bytes }) := by
  simp only [write, hroom, List.take_length]
  rw [if_neg (Nat.lt_irrefl _)]

theorem write_of_lt (hroom : s.room bytes.length < bytes.length) :
    s.write bytes = (.error .outputFull, { s with written := s.written ++ bytes.take (s.room bytes.length) }) := by
  simp only [write]
  rw [if_pos hroom]

theorem full_of_lt (hroom : s.room bytes.length < bytes.length) :
    Full { s with written := s.written ++ bytes.take (s.room bytes.length) } := by
  unfold Full
  unfold room at hroom ⊢
  cases hcapacity : s.capacity with
  | none => simp [hcapacity] at hroom
  | some capacity =>
    simp only [hcapacity] at hroom ⊢
    rw [List.length_append, List.length_take]
    omega

theorem Full.write (hs : s.Full) (hbytes : bytes ≠ []) : s.write bytes = (.error .outputFull, s) := by
  have hlength := List.length_pos_iff.2 hbytes
  rw [write_of_lt (by rw [hs.room_eq]; exact hlength), hs.room_eq, List.take_zero, List.append_nil]

theorem room_append_of_lt (hroom : s.room bytes.length < bytes.length) (next : List UInt8) :
    s.room (bytes ++ next).length = s.room bytes.length := by
  unfold room at hroom ⊢
  rw [List.length_append]
  cases hcapacity : s.capacity with
  | none => simp [hcapacity] at hroom
  | some capacity =>
    simp only [hcapacity] at hroom ⊢
    omega

theorem room_append_of_eq (hroom : s.room bytes.length = bytes.length) (next : List UInt8) :
    s.room (bytes ++ next).length = bytes.length + room { s with written := s.written ++ bytes } next.length := by
  unfold room at hroom ⊢
  rw [List.length_append, List.length_append]
  cases hcapacity : s.capacity with
  | none => rfl
  | some capacity =>
    simp only [hcapacity] at hroom ⊢
    omega

/-- Two writes in a row are one, of which the second is made if the first is done. -/
theorem write_append (s : Sink) (bytes next : List UInt8) : s.write (bytes ++ next) =
    match s.write bytes with
    | (.error e, s) => (.error e, s)
    | (.ok (), s) => s.write next := by
  rcases Nat.lt_or_eq_of_le (s.room_le bytes.length) with hroom | hroom
  · have hsame := room_append_of_lt hroom next
    have hshort : s.room (bytes ++ next).length < (bytes ++ next).length := by
      rw [hsame, List.length_append]
      omega
    rw [write_of_lt hroom, write_of_lt hshort, hsame, List.take_append_of_le_length (Nat.le_of_lt hroom)]
  · have hsum := room_append_of_eq hroom next
    rw [write_of_room hroom]
    simp only [write, hsum]
    rw [List.take_length_add_append, List.length_append, List.append_assoc]
    simp only [Nat.add_lt_add_iff_left]

end Sink

/-! ### Writing -/

section

variable {α β : Type} (message : α) (messages : List α) (reports : List (Except ChannelError β))

/-- The messages that were reported as written. -/
def accepted : List α := ((messages.zip reports).filter fun p => p.2.isOk).map Prod.fst

@[simp] theorem accepted_nil : accepted [] reports = ([] : List α) := rfl

@[simp] theorem accepted_cons_ok (done : β) :
    accepted (message :: messages) (.ok done :: reports) = message :: accepted messages reports := rfl

@[simp] theorem accepted_cons_error (e : ChannelError) :
    accepted (message :: messages) (.error e :: reports) = accepted messages reports := rfl

end

section

variable {α : Type} [Codec α]

theorem frame_ne_nil (message : α) : frame message ≠ [] := by simp [frame, header]

/-- A frame within the limit is written like any other bytes. -/
theorem writeFrame_eq_write {message : α} (hlength : (encode message).length ≤ maxFrame) (sink : Sink) :
    writeFrame message sink =
      (((sink.write (frame message)).1).mapError .transfer, (sink.write (frame message)).2) := by
  simp only [writeFrame, frame]
  rw [if_neg (by omega), sink.write_append]
  rcases sink.write (header (encode message).length) with ⟨⟨⟩ | ⟨⟩, written⟩ <;> rfl

theorem writeFrame_of_long {message : α} (hlength : maxFrame < (encode message).length) (sink : Sink) :
    writeFrame message sink = (.error (.frameTooLarge (encode message).length), sink) := by
  simp only [writeFrame]
  rw [if_pos hlength]

theorem writeFrame_of_room {message : α} (hlength : (encode message).length ≤ maxFrame) {sink : Sink}
    (hroom : sink.room (frame message).length = (frame message).length) :
    writeFrame message sink = (.ok (), { sink with written := sink.written ++ frame message }) := by
  rw [writeFrame_eq_write hlength, Sink.write_of_room hroom]
  rfl

/-- The end of a frame that did not fit. -/
def IsCut (message : α) (rest : List UInt8) : Prop := rest <+: frame message ∧ rest ≠ frame message

/-- How the writing of a message can end: it is too long, its frame is written, or its frame is cut and the sink is full. -/
theorem writeFrame_cases (message : α) (sink : Sink) :
    maxFrame < (encode message).length ∧
        writeFrame message sink = (.error (.frameTooLarge (encode message).length), sink) ∨
      (encode message).length ≤ maxFrame ∧
        writeFrame message sink = (.ok (), { sink with written := sink.written ++ frame message }) ∨
      (encode message).length ≤ maxFrame ∧ ∃ rest, IsCut message rest ∧
        writeFrame message sink = (.error (.transfer .outputFull), { sink with written := sink.written ++ rest }) ∧
        Sink.Full { sink with written := sink.written ++ rest } := by
  rcases Nat.lt_or_ge maxFrame (encode message).length with hlong | hlength
  · exact Or.inl ⟨hlong, writeFrame_of_long hlong sink⟩
  rcases Nat.lt_or_eq_of_le (sink.room_le (frame message).length) with hroom | hroom
  · have hshort : (frame message).take (sink.room (frame message).length) ≠ frame message := by
      intro hall
      have hlengths := congrArg List.length hall
      rw [List.length_take] at hlengths
      omega
    refine Or.inr (Or.inr ⟨hlength, _, ⟨List.take_prefix _ _, hshort⟩, ?_, Sink.full_of_lt hroom⟩)
    rw [writeFrame_eq_write hlength, Sink.write_of_lt hroom]
    rfl
  · exact Or.inr (Or.inl ⟨hlength, writeFrame_of_room hlength hroom⟩)

/-- A full sink stays as it is, and nothing more is written. -/
theorem writeFrames_of_full {sink : Sink} (hfull : sink.Full) (messages : List α) :
    (writeFrames sink messages).2 = sink ∧ accepted messages (writeFrames sink messages).1 = [] := by
  induction messages with
  | nil => exact ⟨rfl, rfl⟩
  | cons message rest ih =>
    have hrefused : ∃ e, writeFrame message sink = (.error e, sink) := by
      rcases Nat.lt_or_ge maxFrame (encode message).length with hlong | hlength
      · exact ⟨_, writeFrame_of_long hlong sink⟩
      · rw [writeFrame_eq_write hlength, hfull.write (frame_ne_nil message)]
        exact ⟨_, rfl⟩
    obtain ⟨e, hwrite⟩ := hrefused
    simp only [writeFrames, hwrite]
    exact ih

/-- What a sink holds after messages were written: the frames of those that were reported as written, and at most one cut. -/
theorem exists_written (sink : Sink) (messages : List α) : ∃ rest,
    (writeFrames sink messages).2.written =
      sink.written ++ (accepted messages (writeFrames sink messages).1).flatMap frame ++ rest ∧
    (rest = [] ∨ ∃ message, (message, .error (.transfer .outputFull)) ∈ messages.zip (writeFrames sink messages).1 ∧
      (encode message).length ≤ maxFrame ∧ IsCut message rest) := by
  induction messages generalizing sink with
  | nil => exact ⟨[], by simp [writeFrames], Or.inl rfl⟩
  | cons message others ih =>
    rcases writeFrame_cases message sink with ⟨-, hwrite⟩ | ⟨-, hwrite⟩ | ⟨hlength, rest, hcut, hwrite, hfull⟩
    · obtain ⟨rest, hwritten, hrest⟩ := ih sink
      simp only [writeFrames, hwrite]
      refine ⟨rest, hwritten, hrest.imp_right ?_⟩
      rintro ⟨m, hm, hcut⟩
      exact ⟨m, List.mem_cons_of_mem _ hm, hcut⟩
    · obtain ⟨rest, hwritten, hrest⟩ := ih { sink with written := sink.written ++ frame message }
      simp only [writeFrames, hwrite]
      refine ⟨rest, ?_, hrest.imp_right ?_⟩
      · rw [hwritten, Except.map, accepted_cons_ok, List.flatMap_cons]
        simp only [List.append_assoc]
      · rintro ⟨m, hm, hcut⟩
        exact ⟨m, List.mem_cons_of_mem _ hm, hcut⟩
    · obtain ⟨hsink, hnone⟩ := writeFrames_of_full hfull others
      simp only [writeFrames, hwrite]
      refine ⟨rest, ?_, Or.inr ⟨message, List.mem_cons_self, hlength, hcut⟩⟩
      rw [hsink, Except.map, accepted_cons_error, hnone]
      simp

/-- Every report is that of one write. -/
theorem exists_write_of_report {sink : Sink} {messages : List α} {p : α × Except ChannelError Nat}
    (hp : p ∈ messages.zip (writeFrames sink messages).1) :
    ∃ before, p.2 = (writeFrame p.1 before).1.map fun _ => (writeFrame p.1 before).2.written.length := by
  induction messages generalizing sink with
  | nil => exact nomatch hp
  | cons message others ih =>
    rcases List.mem_cons.1 hp with rfl | hp
    · exact ⟨sink, rfl⟩
    · exact ih hp

theorem report_eq_tooLarge_iff {sink : Sink} {messages : List α} {p : α × Except ChannelError Nat}
    (hp : p ∈ messages.zip (writeFrames sink messages).1) :
    p.2 = .error (.frameTooLarge (encode p.1).length) ↔ maxFrame < (encode p.1).length := by
  obtain ⟨before, hreport⟩ := exists_write_of_report hp
  rw [hreport]
  rcases writeFrame_cases p.1 before with ⟨hlong, hwrite⟩ | ⟨hlength, hwrite⟩ | ⟨hlength, rest, -, hwrite, -⟩
  · simp [hwrite, Except.map, hlong]
  · simpa [hwrite, Except.map] using hlength
  · simpa [hwrite, Except.map] using hlength

theorem length_le_of_mem_accepted {sink : Sink} {messages : List α} {message : α}
    (hm : message ∈ accepted messages (writeFrames sink messages).1) : (encode message).length ≤ maxFrame := by
  obtain ⟨p, hp, rfl⟩ := List.mem_map.1 hm
  obtain ⟨hp, hok⟩ := List.mem_filter.1 hp
  by_contra hlong
  rw [(report_eq_tooLarge_iff hp).2 (Nat.lt_of_not_le hlong)] at hok
  exact Bool.false_ne_true hok

theorem length_reports (sink : Sink) (messages : List α) :
    (writeFrames sink messages).1.length = messages.length := by
  induction messages generalizing sink with
  | nil => rfl
  | cons message others ih => exact congrArg Nat.succ (ih _)

/-! ### Reading -/

theorem readFrames_of_message {source rest : Source} {message : α} (hread : readFrame source = (.ok (some message), rest)) :
    readFrames source = (message :: (readFrames rest).1, (readFrames (α := α) rest).2) := by
  rw [readFrames]
  split <;> simp_all

theorem readFrames_of_end {source rest : Source} (hread : readFrame (α := α) source = (.ok none, rest)) :
    readFrames (α := α) source = ([], .ok ()) := by
  rw [readFrames]
  split <;> simp_all

theorem readFrames_of_error {source rest : Source} {e : ChannelError}
    (hread : readFrame (α := α) source = (.error e, rest)) : readFrames (α := α) source = ([], .error e) := by
  rw [readFrames]
  split <;> simp_all

theorem read_of_short {s : Source} {count : Nat} (hshort : s.bytes.length < count) :
    s.read count = (.error s.exhausted, { s with bytes := [] }) := by
  unfold Source.read
  rw [if_pos (Nat.lt_of_le_of_lt (List.length_take_le' _ _) hshort)]

/-- Bytes that are too few for a header look like the end of the input. -/
theorem readFrame_of_short {rest : List UInt8} (hshort : rest.length < 4) :
    readFrame (α := α) (.ofBytes rest) = (.ok none, .ofBytes []) := by
  have hread : (Source.ofBytes rest).read 4 = (.error .endOfInput, .ofBytes []) := read_of_short hshort
  simp only [readFrame, hread]

/-- After its whole header a frame that is cut is missing a part of its body. -/
theorem readFrame_of_cut {message : α} (hlength : (encode message).length ≤ maxFrame) {rest : List UInt8}
    (hcut : IsCut message rest) (hheader : 4 ≤ rest.length) :
    readFrame (α := α) (.ofBytes rest) = (.error (.transfer .endOfInput), .ofBytes []) := by
  have hmax : maxFrame = 65536 := rfl
  obtain ⟨hinitial, hpart⟩ := hcut
  obtain ⟨part, rfl⟩ : header (encode message).length <+: rest :=
    List.prefix_of_prefix_length_le (List.prefix_append _ _) hinitial hheader
  rw [frame, List.prefix_append_right_inj] at hinitial
  have hmissing : part.length < (encode message).length := by
    apply Nat.lt_of_le_of_ne hinitial.length_le
    intro hall
    exact hpart (congrArg _ (hinitial.eq_of_length hall))
  have hhead := read_append (.ofBytes part) (header (encode message).length)
  have hbody : (Source.ofBytes part).read (encode message).length = (.error .endOfInput, .ofBytes []) :=
    read_of_short hmissing
  rw [show (header (encode message).length).length = 4 from rfl] at hhead
  change (Source.ofBytes (header (encode message).length ++ part)).read 4 = _ at hhead
  simp only [readFrame, hhead]
  rw [announced_header (by omega), if_neg (by omega), hbody]

/-- What comes after the frames that were read decides how the reading ends. -/
def ending (rest : List UInt8) : Except ChannelError Unit :=
  if rest.length < 4 then .ok () else .error (.transfer .endOfInput)

theorem readFrames_of_cut {message : α} (hlength : (encode message).length ≤ maxFrame) {rest : List UInt8}
    (hcut : IsCut message rest) : readFrames (α := α) (.ofBytes rest) = ([], ending rest) := by
  unfold ending
  split
  · rename_i hshort
    exact readFrames_of_end (readFrame_of_short hshort)
  · rename_i hheader
    exact readFrames_of_error (readFrame_of_cut hlength hcut (Nat.le_of_not_lt hheader))

/-- A type whose values are read back from every body that is within the limit. -/
def Faithful (α : Type) [Codec α] : Prop :=
  ∀ message : α, (encode message).length ≤ maxFrame → Reads decode (encode message) message

/-- Whole frames are read one by one, whatever comes after them. -/
theorem readFrames_frames (hα : Faithful α) {messages : List α} (hlength : ∀ m ∈ messages, (encode m).length ≤ maxFrame)
    (rest : List UInt8) : readFrames (.ofBytes (messages.flatMap frame ++ rest)) =
      (messages ++ (readFrames (.ofBytes rest)).1, (readFrames (α := α) (.ofBytes rest)).2) := by
  induction messages with
  | nil => rfl
  | cons message others ih =>
    have hmessage := hlength message List.mem_cons_self
    have hread := readFrame_frame (hα message hmessage) hmessage (.ofBytes (others.flatMap frame ++ rest))
    rw [List.flatMap_cons, List.append_assoc]
    refine (readFrames_of_message hread).trans ?_
    rw [ih fun m hm => hlength m (List.mem_cons_of_mem _ hm)]
    rfl

/-! ### Both sides -/

/-- Messages written one after the other to a sink of some capacity, and what a reader of its bytes gets. -/
structure Delivery (messages : List α) (capacity : Option Nat) : Prop where
  reported : (writeFrames ⟨[], capacity⟩ messages).1.length = messages.length
  /-- The sink holds the frames of the messages that were reported as written and at most a part of one that was not. The reader gets these messages, and ends as the part lets it. -/
  received : ∃ rest,
    (writeFrames ⟨[], capacity⟩ messages).2.written =
      (accepted messages (writeFrames ⟨[], capacity⟩ messages).1).flatMap frame ++ rest ∧
    (rest = [] ∨ ∃ message,
      (message, .error (.transfer .outputFull)) ∈ messages.zip (writeFrames ⟨[], capacity⟩ messages).1 ∧
      IsCut message rest) ∧
    readFrames (.ofBytes (writeFrames ⟨[], capacity⟩ messages).2.written) =
      (accepted messages (writeFrames ⟨[], capacity⟩ messages).1,
        if rest.length < 4 then .ok () else .error (.transfer .endOfInput))
  /-- The messages that are too long, and only they, are reported so. -/
  refused : ∀ p ∈ messages.zip (writeFrames ⟨[], capacity⟩ messages).1,
    p.2 = .error (.frameTooLarge (encode p.1).length) ↔ maxFrame < (encode p.1).length

/-- Any messages arrive as they were written. One message alone is refused without a byte if its body is too long; otherwise it is accepted on both sides wherever there is room for its frame. -/
structure Delivers (α : Type) [Codec α] : Prop where
  delivery : ∀ (messages : List α) (capacity : Option Nat), Delivery messages capacity
  refused : ∀ (message : α) (sink : Sink), maxFrame < (encode message).length →
    writeFrame message sink = (.error (.frameTooLarge (encode message).length), sink)
  admitted : ∀ (message : α) (sink : Sink) (source : Source), (encode message).length ≤ maxFrame →
    sink.room (frame message).length = (frame message).length →
    writeFrame message sink = (.ok (), { sink with written := sink.written ++ frame message }) ∧
    readFrame { source with bytes := frame message ++ source.bytes } = (.ok (some message), source)

theorem Faithful.delivers (hα : Faithful α) : Delivers α where
  refused message sink hlong := writeFrame_of_long hlong sink
  admitted message sink source hlength hroom :=
    ⟨writeFrame_of_room hlength hroom, readFrame_frame (hα message hlength) hlength source⟩
  delivery messages capacity := by
    obtain ⟨rest, hwritten, hrest⟩ := exists_written ⟨[], capacity⟩ messages
    have hlengths : ∀ m ∈ accepted messages (writeFrames ⟨[], capacity⟩ messages).1, (encode m).length ≤ maxFrame :=
      fun m hm => length_le_of_mem_accepted hm
    have hread := readFrames_frames hα hlengths rest
    have hending : readFrames (α := α) (.ofBytes rest) = ([], ending rest) := by
      rcases hrest with rfl | ⟨message, -, hlength, hcut⟩
      · exact readFrames_of_end (readFrame_of_short (by decide))
      · exact readFrames_of_cut hlength hcut
    refine ⟨length_reports _ messages, ⟨rest, hwritten, hrest.imp_right ?_, ?_⟩, fun p => report_eq_tooLarge_iff⟩
    · rintro ⟨message, hreport, -, hcut⟩
      exact ⟨message, hreport, hcut⟩
    · rw [hwritten, List.nil_append, hread, hending, List.append_nil]
      rfl

end

/-! ### The four types that travel -/

theorem request_faithful : Faithful Request := fun request _ => request_reads request

theorem location_faithful : Faithful Location := fun location _ => location_reads location

theorem slot_faithful : Faithful Slot := fun slot _ => slot_reads slot

/-- The limit on bodies keeps the length of a text within its 64 bits. -/
theorem response_faithful : Faithful Response := by
  intro response hlength
  cases response with
  | reply reply => exact reply_reads reply
  | refusal text =>
    apply refusal_reads
    change (varint 3 ++ (varint (utf8 text).length ++ utf8 text)).length ≤ 65536 at hlength
    rw [List.length_append, List.length_append] at hlength
    omega

theorem size_replicate (n : Nat) : (String.ofList (List.replicate n 'a')).utf8ByteSize = n := by
  induction n with
  | zero => rfl
  | succ n ih =>
    rw [List.replicate_succ, String.ofList_cons, String.utf8ByteSize_append, String.utf8ByteSize_singleton, ih]
    exact Nat.add_comm 1 n

/-- The refusals whose bodies are as long as a body may be. -/
theorem length_refusal_eq_maxFrame {text : String} (htext : text.utf8ByteSize = 65532) :
    (encode (Response.refusal text)).length = maxFrame := by
  have hvarint : (varint 65532).length = 3 := by simp [varint]
  show (varint 3 ++ (varint (utf8 text).length ++ utf8 text)).length = 65536
  rw [List.length_append, List.length_append, length_utf8, htext, hvarint]
  simp [varint]

/-- Requests, responses, locations and slots arrive as they were written, responses up to the limit itself. -/
theorem delivers_every_message : Delivers Request ∧ Delivers Response ∧ Delivers Location ∧ Delivers Slot ∧
    ∃ response : Response, (encode response).length = maxFrame :=
  ⟨request_faithful.delivers, response_faithful.delivers, location_faithful.delivers, slot_faithful.delivers,
    _, length_refusal_eq_maxFrame (size_replicate 65532)⟩

end KnownObjects.Wire
