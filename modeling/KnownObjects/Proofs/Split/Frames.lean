import KnownObjects.Channel.Stream
import KnownObjects.Proofs.Table.Service
import KnownObjects.Proofs.Wire.Delivery

/-!
# What a client answers over a stream

A message is `Framed` when one frame can carry it and it is read back as it was. Every request is, and so is whatever a client answers, in any state, because its refusals are short. The service at the client takes the frames of requests one by one; how it goes on is said here for each thing that it can read.
-/

namespace KnownObjects

open Wire

/-- One frame can carry the message, and it is read back as it was. -/
structure Wire.Framed {α : Type} [Codec α] (message : α) : Prop where
  length : (encode message).length ≤ maxFrame
  reads : Reads decode (encode message) message

theorem Request.framed (request : Request) : Framed request where
  length := by
    have hlength := length_request_le request
    have hmax : maxFrame = 65536 := rfl
    omega
  reads := request_reads request

theorem Response.framed_reply (reply : Reply) : Framed (Response.reply reply) where
  length := by
    have hlength := length_reply_le reply
    have hmax : maxFrame = 65536 := rfl
    omega
  reads := reply_reads reply

theorem Response.framed_refusal {text : String} (htext : text.utf8ByteSize ≤ 300) : Framed (Response.refusal text) where
  length := by
    have hlength := length_refusal_le htext
    have hmax : maxFrame = 65536 := rfl
    omega
  reads := refusal_reads (by rw [length_utf8]; omega)

/-! ### What a client answers -/

namespace Site

/-- Whatever the run brings back fits a frame. -/
def Sends (a : Run Response) : Prop := ∀ s response t, a.Ends s (.ok response) t → Framed response

theorem sends_pure {response : Response} (h : Framed response) : Sends (pure response) := by
  intro s response' t hends
  obtain rfl := Except.ok.inj (hends.unique (Action.pure_ends response s)).1
  exact h

theorem sends_bind {α : Type} (a : Run α) {f : α → Run Response} (h : ∀ x, Sends (f x)) : Sends (a >>= f) := by
  intro s response t hends
  rcases hends.of_bind with ⟨x, u, -, hrest⟩ | ⟨f, herror, -⟩
  · exact h x u response t hrest
  · simp at herror

theorem indexReply_sends (a : Address) : Sends (indexReply a) :=
  sends_bind _ fun _ => sends_bind _ fun _ => sends_pure (Response.framed_reply _)

theorem withObjectAt_sends (location : Location) {answer : Address → Run Response} (h : ∀ a, Sends (answer a)) :
    Sends (withObjectAt location answer) := by
  intro s response t hends
  cases hread : s.heap.read location with
  | ok a =>
    obtain ⟨hanswer, hstate⟩ := hends.unique (withObjectAt_ends hread ((answer a).ends s))
    exact h a s response t ⟨hanswer.symm, hstate.symm⟩
  | error e =>
    obtain ⟨hanswer, -⟩ := hends.unique (withObjectAt_ends_refusal hread answer)
    obtain rfl := Except.ok.inj hanswer
    exact Response.framed_refusal (Heap.ofRead_of_read hread).size_le

theorem serve_sends (request : Request) : Sends (serve request) := by
  refine sends_bind _ fun _ => ?_
  cases request with
  | getIndex object =>
    refine sends_bind _ fun site => ?_
    split
    · exact indexReply_sends object
    · exact sends_pure (Response.framed_refusal (HeapError.OfRead.staleAddress object).size_le)
  | getIndexAt location => exact withObjectAt_sends location indexReply_sends
  | getExistingIndexAt location =>
    exact withObjectAt_sends location fun a => sends_bind _ fun i => sends_pure (Response.framed_reply _)
  | getPointer i =>
    refine sends_bind _ fun site => ?_
    dsimp only
    split
    · exact sends_pure (Response.framed_refusal (Fatal.size_indexOutOfRange_le i _))
    · exact sends_bind _ fun a => sends_pure (Response.framed_reply _)

end Site

/-! ### The service -/

theorem readFrame_framed {α : Type} [Codec α] {message : α} (h : Framed message) :
    readFrame (.ofBytes (frame message)) = (.ok (some message), .ofBytes []) := by
  have hread := readFrame_frame h.reads h.length (.ofBytes [])
  rwa [show (Source.ofBytes []).bytes = [] from rfl, List.append_nil] at hread

/-- One round of the service, by what it reads. -/
theorem serveStream_eq (source : Source) (sink : Sink) (served : Nat) :
    serveStream source sink served = (match readFrame (α := Request) source with
      | (.error e, _) => return (.error e, sink)
      | (.ok none, _) => do
        .note .debug ("client channel closed after " ++ toString served ++ " requests")
        return (.ok served, sink)
      | (.ok (some request), rest) => do
        let response ← Site.serve request
        match writeFrame response sink with
        | (.error e, sink) => return (.error e, sink)
        | (.ok (), sink) => serveStream rest sink (served + 1)) := by
  rw [serveStream]
  split
  · rename_i hread
    exact hread ▸ rfl
  · rename_i hread
    exact hread ▸ rfl
  · rename_i hread
    exact hread ▸ rfl

section

variable {source rest : Source} {sink next : Sink} {served : Nat} {request : Request} {s t : Site} {e : ChannelError}

theorem serveStream_failed {f : Fatal} (hread : readFrame source = (.ok (some request), rest))
    (hserve : (Site.serve request).Ends s (.error f) t) : (serveStream source sink served).Ends s (.error f) t := by
  rw [serveStream_eq, hread]
  exact hserve.bind_error

theorem serveStream_unwritten {response : Response} (hread : readFrame source = (.ok (some request), rest))
    (hserve : (Site.serve request).Ends s (.ok response) t) (hwrite : writeFrame response sink = (.error e, next)) :
    (serveStream source sink served).Ends s (.ok (.error e, next)) t := by
  rw [serveStream_eq, hread]
  apply hserve.bind
  rw [hwrite]
  exact Action.pure_ends _ t

/-- Once a request is answered, the rest of the stream is served. -/
theorem serveStream_next {response : Response} {r : Except Fatal (Except ChannelError Nat × Sink)} {u : Site}
    (hread : readFrame source = (.ok (some request), rest)) (hserve : (Site.serve request).Ends s (.ok response) t)
    (hwrite : writeFrame response sink = (.ok (), next)) (hrest : (serveStream rest next (served + 1)).Ends t r u) :
    (serveStream source sink served).Ends s r u := by
  rw [serveStream_eq, hread]
  apply hserve.bind
  rw [hwrite]
  exact hrest

theorem serveStream_end (hread : readFrame (α := Request) source = (.ok none, rest)) (s : Site) :
    (serveStream source sink served).Ends s (.ok (.ok served, sink)) s := by
  rw [serveStream_eq, hread]
  exact (Action.note_ends _ _ s).bind (Action.pure_ends _ s)

theorem serveStream_broken (hread : readFrame (α := Request) source = (.error e, rest)) (s : Site) :
    (serveStream source sink served).Ends s (.ok (.error e, sink)) s := by
  rw [serveStream_eq, hread]
  exact Action.pure_ends _ s

end

end KnownObjects
