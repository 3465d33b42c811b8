import KnownObjects.Slot

/-!
# Messages between a server and a client

The four questions that a compiler puts to the process that owns the heap, and the answers. A client that cannot answer refuses with a text; everything else is a reply.
-/

namespace KnownObjects

inductive Request where
  | getIndex (object : Address)
  | getIndexAt (location : Location)
  | getExistingIndexAt (location : Location)
  | getPointer (index : Index)
deriving DecidableEq

/-- The name of the question with what it asks about. -/
def Request.debugText : Request → String
  | getIndex a => "GetIndex \x7b object: " ++ a.debugText ++ " \x7d"
  | getIndexAt l => "GetIndexAt \x7b location: " ++ l.debugText ++ " \x7d"
  | getExistingIndexAt l => "GetExistingIndexAt \x7b location: " ++ l.debugText ++ " \x7d"
  | getPointer i => "GetPointer \x7b index: " ++ i.debugText ++ " \x7d"

inductive Reply where
  /-- Answers `getIndex` and `getIndexAt`: the index, and the slot that the client has for it. -/
  | index (index : Index) (slot : Slot)
  | existingIndex (index : Index)
  | pointer (address : Address)
deriving DecidableEq

def Reply.debugText : Reply → String
  | index i s => "Index \x7b index: " ++ i.debugText ++ ", slot: " ++ s.debugText ++ " \x7d"
  | existingIndex i => "ExistingIndex(" ++ i.debugText ++ ")"
  | pointer a => "Pointer(" ++ a.debugText ++ ")"

inductive Response where
  | reply (reply : Reply)
  | refusal (text : String)
deriving DecidableEq

end KnownObjects
