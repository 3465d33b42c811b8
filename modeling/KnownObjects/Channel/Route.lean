import KnownObjects.Channel.Loopback
import KnownObjects.Channel.Stream

/-!
# Routes to a client

A server reaches its client straight or over a byte stream. The client itself is kept elsewhere; it is put at the end of the route before a call and taken back after it.
-/

namespace KnownObjects

inductive Route where
  | loopback (channel : Loopback)
  | stream (channel : StreamChannel ClientPeer)
deriving DecidableEq

namespace Route

instance : Channel Route where
  call request
    | loopback c => ((Channel.call request).run c).mapState loopback
    | stream c => ((Channel.call request).run c).mapState stream

/-- Puts a client at the far end, or takes away the one that is there. -/
def attach (client : Option Site) : Route → Route
  | loopback _ => loopback ⟨client⟩
  | stream c => stream { c with peer := { c.peer with client } }

def client? : Route → Option Site
  | loopback c => c.client
  | stream c => c.peer.client

/-- The error that ended the service at the far end. A straight call ends with the error of its own. -/
def failure? : Route → Option Fatal
  | loopback _ => none
  | stream c => c.peer.failure

/-- Starts the service anew. -/
def renew : Route → Route
  | loopback c => loopback c
  | stream c => stream { c with peer := { c.peer with failure := none } }

end Route

end KnownObjects
