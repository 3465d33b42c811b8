import KnownObjects.Channel.Route

/-!
# The channels of a session

A server of a session is connected in one of three ways: to a client of the session, to prepared responses, or to a byte stream that was prepared. A session has no process but its own, so a client at the end of a stream serves on the stack of its caller, with a new service for each request.
-/

namespace KnownObjects

inductive Link where
  | route (route : Route)
  | scripted (channel : Scripted)
  | bytes (channel : StreamChannel Silence)
deriving DecidableEq

namespace Link

/-- A call whose service runs on the stack of the caller. The fatal error that ends the service goes on from there to the caller, who never gets to read from the stream. -/
def callOnStack (request : Request) : Action Fatal Route (Except ChannelError Response) := do
  let answer ← Channel.call request
  match (← get).failure? with
  | some f =>
    modify Route.renew
    throw f
  | none => return answer

instance : Channel Link where
  call request
    | route l => ((callOnStack request).run l).mapState route
    | scripted c => ((Channel.call request).run c).mapState scripted
    | bytes c => ((Channel.call request).run c).mapState bytes

/-- Puts a client at the far end, or takes away the one that is there. -/
def attach (client : Option Site) : Link → Link
  | route l => route (l.attach client)
  | other => other

def client? : Link → Option Site
  | route l => l.client?
  | _ => none

end Link

end KnownObjects
