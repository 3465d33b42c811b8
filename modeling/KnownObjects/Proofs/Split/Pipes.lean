import KnownObjects.Proofs.Split.AnyPeer
import KnownObjects.Proofs.Split.Calls

/-!
# Pipes that can be cut

A server and its client in two processes are joined by two pipes, one for the requests and one for the responses, and each of them may take only so many bytes. A write that does not fit fails after what did fit, and whoever reads the rest meets the end of its input. The service of the client is over as soon as a request does not arrive whole, a response does not fit or a lookup is given up, and when it is over neither pipe takes anything more.

`StreamChannel.Called` lists how a call can end as long as the service goes on: the request is cut, the client gives up, the response is cut, or the response arrives. Which of these it is depends on the room in the pipes and on the client alone. A response that is cut within its header looks like a peer that has gone away, and one that is cut later like input that ends too early. The server cannot use either.
-/

namespace KnownObjects

open Wire

/-! ### Writing and reading at a cut -/

/-- The sink takes only a part of the bytes. -/
def Wire.Sink.Lacks (sink : Sink) (bytes : List UInt8) : Prop := sink.room bytes.length < bytes.length

section

variable {α : Type} [Codec α] {message : α} {sink : Sink}

theorem Wire.Sink.not_lacks_of_unlimited (h : sink.capacity = none) (bytes : List UInt8) : ¬sink.Lacks bytes := by
  simp [Sink.Lacks, Sink.room, h]

theorem writeFrame_of_not_lacks (hlength : (encode message).length ≤ maxFrame) (hroom : ¬sink.Lacks (frame message)) :
    writeFrame message sink = (.ok (), { sink with written := sink.written ++ frame message }) :=
  writeFrame_of_room hlength (Nat.le_antisymm (sink.room_le _) (Nat.le_of_not_lt hroom))

theorem exists_cut_of_lacks (hlength : (encode message).length ≤ maxFrame) (hroom : sink.Lacks (frame message)) :
    ∃ rest, IsCut message rest ∧
      writeFrame message sink = (.error (.transfer .outputFull), { sink with written := sink.written ++ rest }) := by
  rcases writeFrame_cases message sink with ⟨hlong, -⟩ | ⟨-, hwrite⟩ | ⟨-, rest, hcut, hwrite, -⟩
  · omega
  · rw [writeFrame_eq_write hlength, Sink.write_of_lt hroom] at hwrite
    exact absurd (Prod.mk.inj hwrite).1 (by simp [Except.mapError])
  · exact ⟨rest, hcut, hwrite⟩

/-- The sink takes bytes in a row if it takes each of them behind the others. -/
theorem Wire.Sink.not_lacks_append {bytes next : List UInt8} : ¬sink.Lacks (bytes ++ next) ↔
    ¬sink.Lacks bytes ∧ ¬Lacks { sink with written := sink.written ++ bytes } next := by
  unfold Lacks
  rw [List.length_append]
  rcases Nat.lt_or_eq_of_le (sink.room_le bytes.length) with hroom | hroom
  · have hsame := room_append_of_lt hroom next
    rw [List.length_append] at hsame
    omega
  · have hsum := room_append_of_eq hroom next
    rw [List.length_append] at hsum
    omega

/-- The reader of a frame that is cut gets no message, and nothing is left to read. -/
theorem readFrame_of_isCut {rest : List UInt8} (hlength : (encode message).length ≤ maxFrame) (hcut : IsCut message rest) :
    readFrame (α := α) (.ofBytes rest) = (.ok none, .ofBytes []) ∨
      readFrame (α := α) (.ofBytes rest) = (.error (.transfer .endOfInput), .ofBytes []) := by
  rcases Nat.lt_or_ge rest.length 4 with hshort | hheader
  · exact Or.inl (readFrame_of_short hshort)
  · exact Or.inr (readFrame_of_cut hlength hcut hheader)

end

/-! ### The far end -/

/-- The process of the client at the end of the pipes. -/
structure FarEnd where
  client : Site
  replies : Sink
  /-- Whether its service is over. -/
  ended : Bool
deriving DecidableEq

namespace FarEnd

/-- Serves what a write brought. After a whole request the service waits for the next one. Anything else was cut, and so it is the end of what arrives. -/
def take (bytes : List UInt8) (far : FarEnd) : FarEnd :=
  let o := (serveStream (.ofBytes bytes) far.replies 0).run far.client
  match o.result with
  | .ok (.ok served, replies) => ⟨o.state, replies, served == 0⟩
  | .ok (.error _, replies) => ⟨o.state, replies, true⟩
  | .error _ => ⟨o.state, far.replies, true⟩

instance : Peer FarEnd where
  react bytes := do
    let far ← get
    if far.ended then return []
    else
      set (far.take bytes)
      return (far.take bytes).replies.written.drop far.replies.written.length

theorem react_ends {far : FarEnd} (hwaiting : far.ended = false) (bytes : List UInt8) :
    (Peer.react bytes : Action Fatal FarEnd _).Ends far
      (.ok ((far.take bytes).replies.written.drop far.replies.written.length)) (far.take bytes) := by
  apply (Action.get_ends far).bind
  rw [if_neg (by simp [hwaiting])]
  exact (Action.set_ends _ _).bind (Action.pure_ends _ _)

theorem react_ends_of_ended {far : FarEnd} (hended : far.ended = true) (bytes : List UInt8) :
    (Peer.react bytes : Action Fatal FarEnd _).Ends far (.ok []) far := by
  apply (Action.get_ends far).bind
  rw [if_pos hended]
  exact Action.pure_ends _ _

theorem take_of_ok {far : FarEnd} {bytes : List UInt8} {served : Nat} {replies : Sink} {t : Site}
    (h : (serveStream (.ofBytes bytes) far.replies 0).Ends far.client (.ok (.ok served, replies)) t) :
    far.take bytes = ⟨t, replies, served == 0⟩ := by
  simp only [take]
  rw [h.1, h.2]

theorem take_of_broken {far : FarEnd} {bytes : List UInt8} {e : ChannelError} {replies : Sink} {t : Site}
    (h : (serveStream (.ofBytes bytes) far.replies 0).Ends far.client (.ok (.error e, replies)) t) :
    far.take bytes = ⟨t, replies, true⟩ := by
  simp only [take]
  rw [h.1, h.2]

theorem take_of_error {far : FarEnd} {bytes : List UInt8} {f : Fatal} {t : Site}
    (h : (serveStream (.ofBytes bytes) far.replies 0).Ends far.client (.error f) t) :
    far.take bytes = ⟨t, far.replies, true⟩ := by
  simp only [take]
  rw [h.1, h.2]

/-- A request that is cut changes nothing at the client, and ends the service. -/
theorem take_of_isCut {request : Request} {rest : List UInt8} (hcut : IsCut request rest) (far : FarEnd) :
    far.take rest = { far with ended := true } := by
  rcases readFrame_of_isCut request.framed.length hcut with hread | hread
  · exact take_of_ok (serveStream_end hread far.client)
  · exact take_of_broken (serveStream_broken hread far.client)

section

variable {request : Request} {far : FarEnd} {t : Site}

theorem take_of_failed {f : Fatal} (h : (Site.serve request).Ends far.client (.error f) t) :
    far.take (frame request) = ⟨t, far.replies, true⟩ := by
  exact take_of_error (serveStream_failed (readFrame_framed request.framed) h)

theorem take_of_answered {response : Response} (h : (Site.serve request).Ends far.client (.ok response) t)
    (hroom : ¬far.replies.Lacks (frame response)) :
    far.take (frame request) =
      ⟨t, { far.replies with written := far.replies.written ++ frame response }, false⟩ := by
  have hframed := Site.serve_sends request _ _ _ h
  have hserved : (serveStream (.ofBytes (frame request)) far.replies 0).Ends far.client
      (.ok (.ok 1, { far.replies with written := far.replies.written ++ frame response })) t := by
    have hwrite := writeFrame_of_not_lacks hframed.length hroom
    exact serveStream_next (readFrame_framed request.framed) h hwrite (serveStream_end rfl t)
  exact take_of_ok hserved

theorem take_of_unanswered {response : Response} (h : (Site.serve request).Ends far.client (.ok response) t)
    (hroom : far.replies.Lacks (frame response)) : ∃ rest, IsCut response rest ∧
      far.take (frame request) = ⟨t, { far.replies with written := far.replies.written ++ rest }, true⟩ := by
  obtain ⟨rest, hcut, hwrite⟩ := exists_cut_of_lacks (Site.serve_sends request _ _ _ h).length hroom
  exact ⟨rest, hcut, take_of_broken (serveStream_unwritten (readFrame_framed request.framed) h hwrite)⟩

end

end FarEnd

/-! ### Calls -/

namespace StreamChannel

section

variable {π : Type} [Peer π] {c : StreamChannel π} {request : Request} {sink : Sink} {sent : List UInt8}
  {answer : List UInt8} {peer : π}

theorem call_ends_of_unsent {e : ChannelError}
    (hwrite : writeFrame request c.sink = (.error e, { c.sink with written := c.sink.written ++ sent }))
    (hreact : (Peer.react sent : Action Fatal π _).Ends c.peer (.ok answer) peer) :
    (Channel.call request : Action Fatal (StreamChannel π) _).Ends c (.ok (.error e))
      ⟨{ c.sink with written := c.sink.written ++ sent }, { c.source with bytes := c.source.bytes ++ answer }, peer⟩ := by
  apply (Action.get_ends c).bind
  simp only [hwrite, List.drop_left]
  apply (Action.modify_ends _ _).bind
  have hexchange := Action.Ends.focus StreamChannel.peer (fun peer (c : StreamChannel π) => { c with peer })
    (s := { c with sink := { c.sink with written := c.sink.written ++ sent } }) hreact
  apply (hexchange.bind (Action.modify_ends _ _)).bind
  exact Action.pure_ends _ _

end

/-- How a call can end while the service goes on. -/
inductive Called (c : StreamChannel FarEnd) (request : Request) :
    Except ChannelError Response → StreamChannel FarEnd → Prop
  | unsent {d : StreamChannel FarEnd} : c.sink.Lacks (frame request) →
    d.peer.client = c.peer.client → d.peer.ended = true → Called c request (.error (.transfer .outputFull)) d
  | failed {f : Fatal} {t : Site} {d : StreamChannel FarEnd} : ¬c.sink.Lacks (frame request) →
    (Site.serve request).Ends c.peer.client (.error f) t → d.peer.client = t → d.peer.ended = true →
    Called c request (.error .closed) d
  | unanswered {response : Response} {t : Site} {e : ChannelError} {d : StreamChannel FarEnd} :
    ¬c.sink.Lacks (frame request) → (Site.serve request).Ends c.peer.client (.ok response) t →
    c.peer.replies.Lacks (frame response) → e = .closed ∨ e = .transfer .endOfInput → d.peer.client = t →
    d.peer.ended = true → Called c request (.error e) d
  | answered {response : Response} {t : Site} : ¬c.sink.Lacks (frame request) →
    (Site.serve request).Ends c.peer.client (.ok response) t → ¬c.peer.replies.Lacks (frame response) →
    Called c request (.ok response) ⟨{ c.sink with written := c.sink.written ++ frame request }, .ofBytes [],
      ⟨t, { c.peer.replies with written := c.peer.replies.written ++ frame response }, false⟩⟩

variable {c : StreamChannel FarEnd}

theorem exists_called (hsource : c.source = .ofBytes []) (hwaiting : c.peer.ended = false) (request : Request) :
    ∃ r d, (Channel.call request : Action Fatal (StreamChannel FarEnd) _).Ends c (.ok r) d ∧ Called c request r d := by
  have hreact := FarEnd.react_ends hwaiting
  by_cases hrequest : c.sink.Lacks (frame request)
  · obtain ⟨rest, hcut, hwrite⟩ := exists_cut_of_lacks request.framed.length hrequest
    have hnothing := hreact rest
    rw [FarEnd.take_of_isCut hcut, List.drop_length] at hnothing
    exact ⟨_, _, call_ends_of_unsent hwrite hnothing, .unsent hrequest rfl rfl⟩
  have hwrite := writeFrame_of_not_lacks request.framed.length hrequest
  have hserve := (Site.serve request).ends c.peer.client
  cases hresult : ((Site.serve request).run c.peer.client).result with
  | error f =>
    rw [hresult] at hserve
    have hanswer := hreact (frame request)
    rw [FarEnd.take_of_failed hserve, List.drop_length] at hanswer
    have hread : readFrame (α := Response) { c.source with bytes := c.source.bytes ++ [] } = (.ok none, .ofBytes []) := by
      rw [hsource]
      exact readFrame_of_short (by decide)
    exact ⟨_, _, call_ends_of_sent hwrite hanswer hread, .failed hrequest hserve rfl rfl⟩
  | ok response =>
    rw [hresult] at hserve
    have hframed := Site.serve_sends request _ _ _ hserve
    have hanswer := hreact (frame request)
    by_cases hresponse : c.peer.replies.Lacks (frame response)
    · obtain ⟨rest, hcut, htaken⟩ := FarEnd.take_of_unanswered hserve hresponse
      rw [htaken, List.drop_left] at hanswer
      have hsame : { c.source with bytes := c.source.bytes ++ rest } = Source.ofBytes rest := by rw [hsource]; rfl
      rcases readFrame_of_isCut hframed.length hcut with hread | hread
      · have hcall := call_ends_of_sent hwrite hanswer (hsame ▸ hread)
        exact ⟨_, _, hcall, .unanswered hrequest hserve hresponse (Or.inl rfl) rfl rfl⟩
      · have hcall := call_ends_of_sent hwrite hanswer (hsame ▸ hread)
        exact ⟨_, _, hcall, .unanswered hrequest hserve hresponse (Or.inr rfl) rfl rfl⟩
    · rw [FarEnd.take_of_answered hserve hresponse, List.drop_left] at hanswer
      have hread : readFrame { c.source with bytes := c.source.bytes ++ frame response } =
          (.ok (some response), .ofBytes []) := by
        rw [hsource]
        exact readFrame_framed hframed
      exact ⟨_, _, call_ends_of_sent hwrite hanswer hread, .answered hrequest hserve hresponse⟩

/-- Once the pipe takes nothing more and the service is over, a call changes nothing. -/
theorem call_ends_of_full (hfull : c.sink.Full) (hended : c.peer.ended = true) (request : Request) :
    (Channel.call request : Action Fatal (StreamChannel FarEnd) _).Ends c (.ok (.error (.transfer .outputFull))) c := by
  have hwrite : writeFrame request c.sink =
      (.error (.transfer .outputFull), { c.sink with written := c.sink.written ++ [] }) := by
    rw [writeFrame_eq_write request.framed.length, hfull.write (frame_ne_nil request), List.append_nil]
    rfl
  have hcall := call_ends_of_unsent hwrite (FarEnd.react_ends_of_ended hended [])
  rwa [List.append_nil, List.append_nil] at hcall

/-- When the service is over, nothing more can be written to it. -/
def close (c : StreamChannel FarEnd) : StreamChannel FarEnd :=
  if c.peer.ended then { c with sink := { c.sink with capacity := some c.sink.written.length } } else c

theorem close_of_waiting (h : c.peer.ended = false) : c.close = c := by
  rw [close, if_neg (by simp [h])]

@[simp] theorem peer_close (c : StreamChannel FarEnd) : c.close.peer = c.peer := by
  unfold close
  split <;> rfl

theorem full_close (h : c.peer.ended = true) : c.close.sink.Full := by
  rw [close, if_pos h]
  simp [Sink.Full, Sink.room]

end StreamChannel

end KnownObjects
