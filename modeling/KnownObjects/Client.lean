import KnownObjects.Table

/-!
# Serving requests

The client is the side that owns the heap. It answers the requests of a server from its own table, and it alone decides the order of the indices. A request that makes no sense is refused with a text: the server's compilation fails, the client goes on.
-/

namespace KnownObjects.Site

/-- The index of an object, together with the slot that it has in the table. -/
def indexReply (object : Address) : Run Response := do
  let index ← indexOf object
  return .reply (.index index (← slot index))

/-- Continues with what a location holds, or refuses with the reason why it cannot be read. -/
def withObjectAt (location : Location) (answer : Address → Run Response) : Run Response := do
  match (← get).heap.read location with
  | .ok object => answer object
  | .error e => return .refusal e.message

def serve (request : Request) : Run Response := do
  .note .trace ("client serving " ++ request.debugText)
  match request with
  | .getIndex object =>
    if object.isNull || (← get).heap.isLive object then
      indexReply object
    else
      return .refusal (HeapError.staleAddress object).message
  | .getIndexAt location => withObjectAt location indexReply
  | .getExistingIndexAt location =>
    withObjectAt location fun object => return .reply (.existingIndex (← existingIndexOf object))
  | .getPointer index =>
    let bound := (← get).table.endIndex
    if index.isUnknown || bound ≤ index then
      return .refusal (Fatal.indexOutOfRange index bound).message
    else
      return .reply (.pointer (← pointerOf index))

end KnownObjects.Site
