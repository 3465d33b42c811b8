import KnownObjects.Channel.Basic
import KnownObjects.IndexSet
import KnownObjects.Table

/-!
# The table of a server

A compiler in a process of its own cannot read the heap, so its table resolves nothing by itself. Every lookup goes to the client over a channel, and the answer is reconciled with the slots: the server learns indices in the order in which the client hands them out, and refuses an answer that contradicts what it already knows. Nothing is assumed about the channel.
-/

namespace KnownObjects

structure Server (χ : Type) where
  channel : χ
  slots : SlotStore
  constantElements : IndexSet

namespace Server

variable {χ α : Type}

abbrev Run (χ α : Type) := Action Fatal (Server χ) α

def ofChannel (channel : χ) : Server χ := ⟨channel, .empty, .empty⟩

def endIndex (s : Server χ) : Index := s.slots.size

def debugText (s : Server χ) : String :=
  "RemoteTable \x7b channel: Chan, end: " ++ s.endIndex.debugText ++ " \x7d"

def slot (i : Index) : Run χ Slot := do
  .orRaise id ((← get).slots.get i)

/-- Null has index 0. Any other address may already be stale at the client, so it must not be asked about. -/
def indexOf (object : Address) : Run χ Index :=
  if object.isNull then return .null else .raise (.forbiddenOnServer "index_of")

/-- The pointer of null. No other pointer is known here. -/
def pointerOf (i : Index) : Run χ Address :=
  if i.isNull then return .null else .raise (.forbiddenOnServer "pointer_of")

/-- Sends a request. An error of the channel is fatal here, and so is a refusal. -/
def ask [Channel χ] (request : Request) : Run χ Reply := do
  let answer ← Action.focus Server.channel (fun channel s => { s with channel }) (Channel.call request)
  match ← .orRaise .channel answer with
  | .reply reply => return reply
  | .refusal text => .raise (.clientRejected text)

/-- Folds the client's slot for an index into the slots: the next index is learnt, a known one must agree, and one further ahead is refused. -/
def reconcile (index : Index) (reported : Slot) : Run χ Unit := do
  if index.isUnknown then
    return ()
  else
    let slots := (← get).slots
    let next := slots.size
    if next < index then
      .raise (.indexAhead index next)
    else if index = next then
      match reported with
      | .null => .raise (.handleMismatch index .null .null)
      | .ref handle =>
        let (_, slots) ← .orRaise id (slots.append handle)
        modify fun s => { s with slots }
        .note .debug ("server learned obj" ++ index.text ++ " (" ++ handle.text ++ ")")
    else
      let known ← slot index
      if known = reported then return () else .raise (.handleMismatch index known reported)

def tag (i : Index) : Run χ Unit :=
  modify fun s => { s with constantElements := s.constantElements.tag i }

def isTagged (s : Server χ) (i : Index) : Bool := s.constantElements.contains i

/-- The index that the client has for what a location holds, or gives it now. -/
def lookup [Channel χ] (location : Location) : Run χ Index := do
  match ← ask (.getIndexAt location) with
  | .index index reported =>
    reconcile index reported
    return index
  | other => .raise (.channel (.unexpectedReply "Index" other))

def indexAt [Channel χ] (location : Location) (constant : Bool) : Run χ Index := do
  let index ← lookup location
  if constant then tag index
  return index

/-- The index that the client has for what a location holds, if any. The slots stay as they are. -/
def existingIndexAt [Channel χ] (location : Location) : Run χ Index := do
  match ← ask (.getExistingIndexAt location) with
  | .existingIndex index => return index
  | other => .raise (.channel (.unexpectedReply "ExistingIndex" other))

end Server

end KnownObjects
