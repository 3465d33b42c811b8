import KnownObjects.Channel.Route
import KnownObjects.Proofs.Split.Frames

/-!
# Calls over a route

A route to a client is at rest when nothing is on its way: a loopback always, a stream when its source is used up, works, and its sink has no limit. A call over such a route leaves it at rest again. What it brings back is the ending of the service at the client, with one difference between the two kinds of route: where the client gives up, a loopback passes on why, and a stream is closed. Its service is over then, and every later call finds it closed as well.

Nothing that a client answers is too long for a frame, so that is the only difference.
-/

namespace KnownObjects

open Wire

/-! ### The far end of a stream -/

namespace ClientPeer

/-- A client that gets the frame of one request sends the frame of its response. -/
theorem serve_ends {request : Request} {s t : Site} {r : Except Fatal Response} (h : (Site.serve request).Ends s r t)
    (failure : Option Fatal) : (serve (frame request)).Ends ⟨some s, failure⟩
      (r.map fun response => (.ok 1, { Sink.empty with written := frame response })) ⟨some t, failure⟩ := by
  have hservice : (serveStream (.ofBytes (frame request)) .empty 0).Ends s
      (r.map fun response => (.ok 1, { Sink.empty with written := frame response })) t := by
    have hread := readFrame_framed request.framed
    cases r with
    | error f => exact serveStream_failed hread h
    | ok response =>
      have hwrite : writeFrame response Sink.empty = (.ok (), { Sink.empty with written := frame response }) :=
        writeFrame_frame (Site.serve_sends request _ _ _ h).length rfl
      exact serveStream_next hread h hwrite (serveStream_end rfl t)
  exact Action.Ends.focus ClientPeer.client (fun client peer => { peer with client }) (s := ⟨some s, failure⟩)
    (hservice.whenPresent _)

theorem react_ends {peer next : ClientPeer} {bytes : List UInt8} {served : Nat} {replies : Sink}
    (h : (serve bytes).Ends peer (.ok (.ok served, replies)) next) (hgoing : peer.failure = none) :
    (Peer.react bytes : Action Fatal ClientPeer _).Ends peer (.ok replies.written) next := by
  apply (Action.get_ends peer).bind
  rw [hgoing]
  exact h.attempt.bind (Action.pure_ends replies.written next)

/-- A fatal error ends the service without a word. -/
theorem react_ends_of_failed {peer next : ClientPeer} {bytes : List UInt8} {f : Fatal}
    (h : (serve bytes).Ends peer (.error f) next) (hgoing : peer.failure = none) :
    (Peer.react bytes : Action Fatal ClientPeer _).Ends peer (.ok []) { next with failure := some f } := by
  apply (Action.get_ends peer).bind
  rw [hgoing]
  exact h.attempt.bind ((Action.modify_ends _ next).bind (Action.pure_ends [] _))

theorem react_ends_of_over (peer : ClientPeer) (hover : peer.failure.isSome = true) (bytes : List UInt8) :
    (Peer.react bytes : Action Fatal ClientPeer _).Ends peer (.ok []) peer := by
  apply (Action.get_ends peer).bind
  rw [if_pos hover]
  exact Action.pure_ends [] peer

end ClientPeer

/-! ### Calls -/

theorem Loopback.call_ends {request : Request} {s t : Site} {r : Except Fatal Response}
    (h : (Site.serve request).Ends s r t) :
    (Channel.call request : Action Fatal Loopback _).Ends ⟨some s⟩ (r.map .ok) ⟨some t⟩ := by
  have hservice : (do return .ok (← Site.serve request) : Site.Run (Except ChannelError Response)).Ends s (r.map .ok) t := by
    cases r with
    | error f => exact h.bind_error
    | ok response => exact h.bind (Action.pure_ends _ t)
  exact Action.Ends.focus Loopback.client (fun client _ => ⟨client⟩) (s := ⟨some s⟩) (hservice.whenPresent _)

namespace StreamChannel

section

variable {π : Type} [Peer π] {c : StreamChannel π} {request : Request} {sent answer : List UInt8} {peer : π}

/-- What a call makes of what it reads. -/
def received : Except ChannelError (Option Response) → Except ChannelError Response
  | .ok (some response) => .ok response
  | .ok none => .error .closed
  | .error e => .error e

theorem call_ends_of_sent {message : Except ChannelError (Option Response)} {source : Source}
    (hwrite : writeFrame request c.sink = (.ok (), { c.sink with written := c.sink.written ++ sent }))
    (hreact : (Peer.react sent : Action Fatal π _).Ends c.peer (.ok answer) peer)
    (hread : readFrame { c.source with bytes := c.source.bytes ++ answer } = (message, source)) :
    (Channel.call request : Action Fatal (StreamChannel π) _).Ends c (.ok (received message))
      ⟨{ c.sink with written := c.sink.written ++ sent }, source, peer⟩ := by
  apply (Action.get_ends c).bind
  simp only [hwrite, List.drop_left]
  apply (Action.modify_ends _ _).bind
  have hexchange := Action.Ends.focus StreamChannel.peer (fun peer (c : StreamChannel π) => { c with peer })
    (s := { c with sink := { c.sink with written := c.sink.written ++ sent } }) hreact
  apply (hexchange.bind (Action.modify_ends _ _)).bind
  refine (Action.get_ends _).bind ((Action.modify_ends _ _).bind ?_)
  simp only [hread]
  rcases message with e | ⟨⟩ | response <;> exact Action.pure_ends _ _

end

/-- Nothing is on its way, and whatever is written arrives. -/
structure Resting (c : StreamChannel ClientPeer) : Prop where
  sink : c.sink.capacity = none
  source : c.source = .ofBytes []

variable {c : StreamChannel ClientPeer}

/-- The channel after a call, with a peer at its far end. -/
def sentTo (c : StreamChannel ClientPeer) (request : Request) (peer : ClientPeer) : StreamChannel ClientPeer :=
  ⟨{ c.sink with written := c.sink.written ++ frame request }, .ofBytes [], peer⟩

theorem Resting.sentTo (hc : c.Resting) (request : Request) (peer : ClientPeer) : (c.sentTo request peer).Resting :=
  ⟨hc.sink, rfl⟩

theorem Resting.call_ends (hc : c.Resting) {request : Request} {response : Response} {peer : ClientPeer}
    (hframed : Framed response)
    (hreact : (Peer.react (frame request) : Action Fatal ClientPeer _).Ends c.peer (.ok (frame response)) peer) :
    (Channel.call request : Action Fatal (StreamChannel ClientPeer) _).Ends c (.ok (.ok response))
      (c.sentTo request peer) := by
  have hread : readFrame { c.source with bytes := c.source.bytes ++ frame response } =
      (.ok (some response), .ofBytes []) := by
    rw [hc.source]
    exact readFrame_framed hframed
  exact call_ends_of_sent (writeFrame_frame request.framed.length hc.sink) hreact hread

/-- Where nothing comes back, the stream is closed. -/
theorem Resting.call_ends_of_silent (hc : c.Resting) {request : Request} {peer : ClientPeer}
    (hreact : (Peer.react (frame request) : Action Fatal ClientPeer _).Ends c.peer (.ok []) peer) :
    (Channel.call request : Action Fatal (StreamChannel ClientPeer) _).Ends c (.ok (.error .closed))
      (c.sentTo request peer) := by
  have hread : readFrame (α := Response) { c.source with bytes := c.source.bytes ++ [] } = (.ok none, .ofBytes []) := by
    rw [hc.source]
    exact readFrame_of_short (by decide)
  exact call_ends_of_sent (writeFrame_frame request.framed.length hc.sink) hreact hread

end StreamChannel

/-- The two ways in which a server is attached to a client. -/
inductive Attachment where
  | loopback
  | stream
deriving DecidableEq

def Attachment.route : Attachment → Route
  | loopback => .loopback ⟨none⟩
  | stream => .stream (.ofBytes [] ⟨none, none⟩)

namespace Route

def attachment : Route → Attachment
  | loopback _ => .loopback
  | stream _ => .stream

/-- Nothing is on its way. -/
inductive Resting : Route → Prop
  | loopback (c : Loopback) : Resting (.loopback c)
  | stream {c : StreamChannel ClientPeer} : c.Resting → Resting (.stream c)

/-- What the caller takes for the ending of a service, and the route afterwards. Over a stream it does not learn why the client gave up. -/
inductive Passes (q : Except Fatal Response) : Route → Except Fatal Response → Route → Prop
  | straight {c d : Loopback} : Passes q (.loopback c) q (.loopback d)
  | answered {c d : StreamChannel ClientPeer} {response : Response} : q = .ok response → d.peer.failure = none →
    Passes q (.stream c) (.ok response) (.stream d)
  | failed {c d : StreamChannel ClientPeer} {f : Fatal} : q = .error f → d.peer.failure = some f →
    Passes q (.stream c) (.error (.channel .closed)) (.stream d)

theorem Passes.attachment_eq {l m : Route} {q p : Except Fatal Response} (h : Passes q l p m) :
    m.attachment = l.attachment := by
  cases h <;> rfl

theorem Passes.of_ok {l m : Route} {q : Except Fatal Response} {response : Response} (h : Passes q l (.ok response) m) :
    q = .ok response := by
  cases h with
  | straight => rfl
  | answered hq => exact hq

theorem Passes.eq_of_ok {l m : Route} {p : Except Fatal Response} {response : Response} (h : Passes (.ok response) l p m) :
    p = .ok response ∧ m.failure? = none := by
  cases h with
  | straight => exact ⟨rfl, rfl⟩
  | answered hanswer hgoing => exact ⟨hanswer.symm, hgoing⟩
  | failed hfailure => simp at hfailure

theorem Passes.eq_of_loopback {l m : Route} {q p : Except Fatal Response} (h : Passes q l p m)
    (hl : l.attachment = .loopback) : p = q ∧ m.failure? = none := by
  cases h with
  | straight => exact ⟨rfl, rfl⟩
  | answered | failed => simp [attachment] at hl

theorem Passes.of_error {l m : Route} {q : Except Fatal Response} {f : Fatal} (h : Passes q l (.error f) m) :
    q = .error f ∨ f = .channel .closed := by
  cases h with
  | straight => exact Or.inl rfl
  | failed => exact Or.inr rfl

/-- The ending of a call for one to whom an error of the channel is fatal. -/
def taken : Except Fatal (Except ChannelError Response) → Except Fatal Response
  | .ok (.ok response) => .ok response
  | .ok (.error e) => .error (.channel e)
  | .error f => .error f

theorem taken_map_ok (r : Except Fatal Response) : taken (r.map .ok) = r := by
  cases r <;> rfl

variable {l : Route}

@[simp] theorem failure?_attach (l : Route) (client : Option Site) : (l.attach client).failure? = l.failure? := by
  cases l <;> rfl

@[simp] theorem attachment_attach (l : Route) (client : Option Site) : (l.attach client).attachment = l.attachment := by
  cases l <;> rfl

@[simp] theorem client?_attach (l : Route) (client : Option Site) : (l.attach client).client? = client := by
  cases l <;> rfl

@[simp] theorem attach_attach (l : Route) (client other : Option Site) :
    (l.attach client).attach other = l.attach other := by
  cases l <;> rfl

theorem Resting.attach (hl : l.Resting) (client : Option Site) : (l.attach client).Resting := by
  cases hl with
  | loopback c => exact .loopback _
  | stream hc => exact .stream ⟨hc.sink, hc.source⟩

/-- As long as the service goes on, a call has the ending of the service at the client, as the route passes it on. -/
theorem Resting.call_ends (hl : l.Resting) (hgoing : l.failure? = none) {request : Request} {s t : Site}
    {q : Except Fatal Response} (h : (Site.serve request).Ends s q t) :
    ∃ a m, m.Resting ∧ l.Passes q (taken a) m ∧
      (Channel.call request : Action Fatal Route _).Ends (l.attach (some s)) a (m.attach (some t)) := by
  cases hl with
  | loopback c =>
    have hcall := Loopback.call_ends h
    refine ⟨_, .loopback ⟨none⟩, .loopback _, ?_, hcall.1, congrArg Route.loopback hcall.2⟩
    rw [taken_map_ok]
    exact .straight
  | @stream c hc =>
    have hattached : ({ c with peer := { c.peer with client := some s } } : StreamChannel ClientPeer).Resting :=
      ⟨hc.sink, hc.source⟩
    have hserve := ClientPeer.serve_ends h c.peer.failure
    cases q with
    | ok response =>
      have hframed := Site.serve_sends request _ _ _ h
      have hcall := hattached.call_ends hframed (ClientPeer.react_ends hserve hgoing)
      have hpasses : Passes (.ok response) (.stream c) (.ok response) (.stream (c.sentTo request ⟨some t, c.peer.failure⟩)) :=
        .answered rfl hgoing
      exact ⟨.ok (.ok response), _, .stream (hc.sentTo _ _), hpasses, hcall.1, congrArg Route.stream hcall.2⟩
    | error f =>
      have hcall := hattached.call_ends_of_silent (ClientPeer.react_ends_of_failed hserve hgoing)
      exact ⟨_, .stream (c.sentTo request ⟨some t, some f⟩), .stream (hc.sentTo _ _), .failed rfl rfl,
        hcall.1, congrArg Route.stream hcall.2⟩

/-- When the service is over, every call finds the stream closed. -/
theorem Resting.call_ends_of_over (hl : l.Resting) {f : Fatal} (hover : l.failure? = some f) (request : Request)
    (client : Option Site) : ∃ m : Route, m.Resting ∧ m.failure? = some f ∧ m.attachment = l.attachment ∧
      (Channel.call request : Action Fatal Route _).Ends (l.attach client) (.ok (.error .closed)) (m.attach client) := by
  cases hl with
  | loopback c => simp [failure?] at hover
  | @stream c hc =>
    have hattached : ({ c with peer := { c.peer with client } } : StreamChannel ClientPeer).Resting :=
      ⟨hc.sink, hc.source⟩
    have hsilent := ClientPeer.react_ends_of_over { c.peer with client } (Option.isSome_of_eq_some hover) (frame request)
    have hcall := hattached.call_ends_of_silent hsilent
    exact ⟨.stream (c.sentTo request c.peer), .stream (hc.sentTo _ _), hover, rfl, hcall.1, congrArg Route.stream hcall.2⟩

end Route

end KnownObjects
