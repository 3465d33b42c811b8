import KnownObjects.Failure

/-!
# Channels

A channel carries one request to a client and brings back the response, in step: the next request is sent only after the answer to the last. A channel is a state with one operation. It may fail with an error of its own, and a fatal error that the client raises while it serves in the same process passes straight through.
-/

namespace KnownObjects

class Channel (χ : Type) where
  call : Request → Action Fatal χ (Except ChannelError Response)

/-- Prepared responses that are handed out in order, with a record of the requests they were given for. -/
structure Scripted where
  replies : List Response
  seen : List Request
deriving DecidableEq

namespace Scripted

def ofReplies (replies : List Response) : Scripted := ⟨replies, []⟩

instance : Channel Scripted where
  call request := do
    let script ← get
    let seen := script.seen ++ [request]
    match script.replies with
    | [] =>
      set ({ script with seen } : Scripted)
      return .error .closed
    | first :: rest =>
      set ({ replies := rest, seen } : Scripted)
      return .ok first

end Scripted

end KnownObjects
