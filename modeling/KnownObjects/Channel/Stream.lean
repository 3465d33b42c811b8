import KnownObjects.Channel.Basic
import KnownObjects.Client
import KnownObjects.Wire.Frame

/-!
# Channels over a byte stream

A stream channel writes each request in a frame and reads the response from one. Between the two it hands what it has written to the peer at the other end and takes in what the peer sends back. A peer that is silent leaves the source as it was prepared; a client answers with the frames of its responses, until its service is over.
-/

namespace KnownObjects

open Wire

/-- Answers requests from a source in the order of their arrival, and counts them. A broken frame or a full sink ends the service. -/
def serveStream (source : Source) (sink : Sink) (served : Nat) :
    Site.Run (Except ChannelError Nat × Sink) :=
  match _h : readFrame (α := Request) source with
  | (.error e, _) => return (.error e, sink)
  | (.ok none, _) => do
    .note .debug ("client channel closed after " ++ toString served ++ " requests")
    return (.ok served, sink)
  | (.ok (some request), rest) => do
    let response ← Site.serve request
    match writeFrame response sink with
    | (.error e, sink) => return (.error e, sink)
    | (.ok (), sink) => serveStream rest sink (served + 1)
termination_by source.bytes.length
decreasing_by exact length_readFrame_lt _h

/-- The other end of a stream: takes the bytes that arrive, and sends bytes back. -/
class Peer (π : Type) where
  react : List UInt8 → Action Fatal π (List UInt8)

inductive Silence where
  | silence
deriving DecidableEq

instance : Peer Silence := ⟨fun _ => return []⟩

/-- A client that may be gone, and the error that ended its service, if one did. -/
structure ClientPeer where
  client : Option Site
  failure : Option Fatal
deriving DecidableEq

namespace ClientPeer

/-- Serves the requests that arrive at once. -/
def serve (bytes : List UInt8) : Action Fatal ClientPeer (Except ChannelError Nat × Sink) :=
  .focus ClientPeer.client (fun client peer => { peer with client }) <|
    .whenPresent (.ok 0, .empty) (serveStream (.ofBytes bytes) .empty 0)

def close (f : Fatal) : Action Fatal ClientPeer Unit := modify fun peer => { peer with failure := some f }

end ClientPeer

/-- The service owns its end of the stream, and takes it away when it ends. So the server hears nothing of a fatal error that the client raises while it serves, and nothing else from then on. -/
instance : Peer ClientPeer where
  react bytes := do
    if (← get).failure.isSome then return []
    match ← (ClientPeer.serve bytes).attempt with
    | .ok (.ok _, replies) => return replies.written
    | .ok (.error e, replies) =>
      ClientPeer.close (.channel e)
      return replies.written
    | .error f =>
      ClientPeer.close f
      return []

structure StreamChannel (π : Type) where
  sink : Sink
  source : Source
  peer : π
deriving DecidableEq

namespace StreamChannel

variable {π : Type}

/-- A stream on which some bytes are already waiting to be read. -/
def ofBytes (bytes : List UInt8) (peer : π) : StreamChannel π := ⟨.empty, .ofBytes bytes, peer⟩

/-- Hands bytes to the peer, and puts what it sends back behind the bytes that wait to be read. -/
def exchange [Peer π] (bytes : List UInt8) : Action Fatal (StreamChannel π) Unit := do
  let answer ← Action.focus StreamChannel.peer (fun peer s => { s with peer }) (Peer.react bytes)
  modify fun s => { s with source := { s.source with bytes := s.source.bytes ++ answer } }

instance [Peer π] : Channel (StreamChannel π) where
  call request := do
    let before := (← get).sink
    let (result, sink) := writeFrame request before
    modify fun s => { s with sink }
    exchange (sink.written.drop before.written.length)
    match result with
    | .error e => return .error e
    | .ok () =>
      let (message, source) := readFrame (← get).source
      modify fun s => { s with source }
      match message with
      | .ok (some response) => return .ok response
      | .ok none => return .error .closed
      | .error e => return .error e

end StreamChannel

end KnownObjects
