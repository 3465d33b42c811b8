import KnownObjects.Channel.Basic
import KnownObjects.Client

/-!
# Calls within one process

A loopback leads straight to a client on the same side of the process boundary. Once the client is gone, the channel is closed.
-/

namespace KnownObjects

structure Loopback where
  client : Option Site
deriving DecidableEq

instance : Channel Loopback where
  call request :=
    .focus Loopback.client (fun client _ => ⟨client⟩) <|
      .whenPresent (.error .closed) do return .ok (← Site.serve request)

end KnownObjects
