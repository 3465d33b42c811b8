import KnownObjects.Heap.Error
import KnownObjects.Message
import KnownObjects.Outcome

/-!
# Failures of channels and of compilations

A channel fails with an error that its user can handle. A fatal error cannot be handled by the operation that meets it: it gives up the compilation, and leaves a record of grade `ERROR` in the log.
-/

namespace KnownObjects

/-- Why bytes could not be moved. -/
inductive TransferError where
  | endOfInput
  | outputFull
  | deviceFailed
deriving DecidableEq

def TransferError.message : TransferError → String
  | endOfInput => "failed to fill whole buffer"
  | outputFull => "failed to write whole buffer"
  | deviceFailed => "device failed"

/-- Why the body of a frame is no message. -/
inductive DecodeError where
  | endOfBody
  | badVarint
  | badText
  | badVariant
deriving DecidableEq

def DecodeError.message : DecodeError → String
  | endOfBody => "Hit the end of buffer, expected more data"
  | badVarint => "Found a varint that didn't terminate. Is the usize too big for this platform?"
  | badText => "Tried to parse invalid utf-8"
  | badVariant => "Serde Deserialization Error"

inductive ChannelError where
  | transfer (cause : TransferError)
  | malformed (cause : DecodeError)
  | closed
  | frameTooLarge (length : Nat)
  | unexpectedReply (expected : String) (got : Reply)
deriving DecidableEq

def ChannelError.message : ChannelError → String
  | transfer cause => "channel i/o failed: " ++ cause.message
  | malformed cause => "malformed frame: " ++ cause.message
  | closed => "peer closed the channel"
  | frameTooLarge n => "frame of " ++ toString n ++ " bytes exceeds the frame limit"
  | unexpectedReply expected got => "expected a " ++ expected ++ " reply, got " ++ got.debugText

inductive Fatal where
  | indexOutOfRange (index bound : Index)
  | forbiddenOnServer (operation : String)
  | handleMismatch (index : Index) (server client : Slot)
  | indexAhead (index next : Index)
  | clientRejected (text : String)
  /-- The heap that is being read is not the one the table belongs to. -/
  | foreignAccess
  | tableFull
  | heap (cause : HeapError)
  | channel (cause : ChannelError)
deriving DecidableEq

def Fatal.message : Fatal → String
  | indexOutOfRange i bound => "index " ++ i.text ++ " must be in range 0.." ++ bound.text
  | forbiddenOnServer operation =>
    operation ++ " is not safe at the server, the object pointer could have become stale at the client"
  | handleMismatch i server client =>
    "server slot " ++ i.text ++ " holds " ++ server.debugText ++ " but the client reported " ++
      client.debugText
  | indexAhead i next =>
    "index " ++ i.text ++ " from the client is greater than the next index " ++ next.text ++
      " at the server"
  | clientRejected text => "client rejected the request: " ++ text
  | foreignAccess => "heap access token belongs to a different heap"
  | tableFull => "known object table is full"
  | heap cause => cause.message
  | channel cause => cause.message

namespace Action

variable {σ α : Type}

/-- Gives up the run with a fatal error, which the log records. -/
def raise (f : Fatal) : Action Fatal σ α := do
  note .error ("fatal: " ++ f.message)
  throw f

/-- Goes on with a value, or gives up with the error in the form of a fatal one. -/
def orRaise {ε : Type} (toFatal : ε → Fatal) : Except ε α → Action Fatal σ α
  | .ok x => pure x
  | .error e => raise (toFatal e)

end Action

end KnownObjects
