import KnownObjects.Channel.Link
import KnownObjects.Compilation
import KnownObjects.Dump.Document

/-!
# What a session can be asked, and what it answers

A session numbers its heaps, its classes, the addresses that it was told to keep and its tables, each in the order of creation. An operation refers to them by these numbers. A compilation is an operation that runs others as its pass.
-/

namespace KnownObjects.Session

/-- An address given outright, by a handle that is resolved when the operation starts, or by the number under which it was kept. -/
inductive AddressTerm where
  | literal (address : Address)
  | handle (handle : Handle)
  | saved (number : Nat)
deriving DecidableEq

/-- What table is created. A channel leads to a client by the number of its table. -/
inductive TableKind where
  | sameProcess (heap : HeapId)
  | client (heap : HeapId)
  | loopback (client : Nat)
  | stream (client : Nat)
  | scripted (replies : List Response)
  | bytes (bytes : List UInt8)

/-- How a dump is printed: what it contains, and how many characters the sink takes. -/
structure Printing where
  options : DumpOptions
  limit : Option Nat

inductive HeapOperation where
  | define (classInfo : ClassInfo)
  | allocate (number count : Nat)
  | store (holder : Handle) (field : String) (value : NewValue)
  /-- A collection, with the tables to be dumped while it holds the heap. If there are any, access to the heap is tried first. -/
  | collect (during : List Nat) (printing : Printing)
  | tryAcquire
  | handleCount
  | release (handles : List Handle)
  | keep (address : AddressTerm)
  | newHandle (address : AddressTerm)
  | isLive (address : AddressTerm)
  | hashOf (address : AddressTerm)
  | classOf (address : AddressTerm)
  | fieldAt (address : AddressTerm) (slot : UInt64)
  | field (address : AddressTerm) (name : String)
  | read (location : Location)

/-- An operation on a table. Where a heap is named, the table is used through that heap instead of its own. -/
inductive TableOperation where
  | role
  | endIndex
  | isNull (index : Index)
  | slot (index : Index)
  | slots
  | indexAt (location : Location) (constant : Bool)
  | existingIndexAt (location : Location)
  | indexOf (address : AddressTerm) (heap : Option HeapId) (constant : Bool)
  | existingIndexOf (address : AddressTerm) (heap : Option HeapId)
  | pointerOf (index : Index) (heap : Option HeapId)
  | tag (index : Index)
  | isTagged (index : Index)
  | dump (printing : Printing)
  | debug
  | serve (request : Request)
  /-- Asks a client for the index of an object. A heap that is named here only says whose handles the address means. -/
  | serveObject (address : AddressTerm) (heap : Option HeapId)
  | serveStream (requests : List Request) (bytes : List UInt8) (capacity : Option Nat)

inductive Command where
  | createHeap (base alignment : Option UInt64) (seed : Option UInt32)
  | onHeap (heap : HeapId) (operation : HeapOperation)
  | createTable (kind : TableKind)
  | onTable (table : Nat) (operation : TableOperation)
  | dropTable (table : Nat)
  /-- Takes the channel of a server's table, which ends the table. -/
  | intoChannel (table : Nat)
  | compile (table : Nat) (pass : List Command) (options : DumpOptions)

inductive Answer where
  | done
  | flag (value : Bool)
  | number (value : Nat)
  | text (value : String)
  | heapNumber (number : Nat)
  | classNumber (number : Nat)
  | tableNumber (number : Nat)
  | handle (handle : Handle)
  | handles (handles : List Handle)
  | index (index : Index)
  | slot (slot : Slot)
  | slots (slots : List Slot)
  | role (role : Role)
  /-- An address as the answer of a table. -/
  | pointer (address : Address)
  /-- An address that was read from the heap. -/
  | reference (address : Address)
  | kept (address : Address) (number : Nat)
  | value (value : Value)
  | classInfo (classInfo : ClassInfo)
  | access (granted : Bool)
  | collected (moved collections : Nat) (during : List Answer)
  | printed (text : String) (failed : Bool)
  | response (response : Response)
  | served (result : Except ChannelError Nat) (output : List UInt8)
  | unplugged
  | seen (requests : List Request) (left : Nat)
  | written (bytes : List UInt8)
  | compiled (id : Nat) (debug : Option String) (answers : List Answer) (before after : String)
  | aborted (failure : Compilation.Aborted) (debug : Option String) (answers : List Answer)
      (before : String)
  | refused (error : HeapError)
  | fatal (error : Fatal)
  /-- The class of an object to be allocated is not defined. -/
  | undefinedClass
  | noTable
  | noSaved
  /-- The operation names a heap or a class that the session does not have. -/
  | noSuchNumber

end KnownObjects.Session
