import KnownObjects.Server
import KnownObjects.Session.Command

/-!
# The state of a session

The tables of a session keep their numbers for ever; a table that is dropped leaves a gap, and the number of a client still counts as a client's. While a pass runs, its table stays in its place but is set apart: only the pass itself reaches it, and a pass within a pass reaches its own table and not the outer one.
-/

namespace KnownObjects

namespace Session

inductive Entry where
  /-- A table that can read its heap. One that serves is the client of a split compilation. -/
  | direct (serves : Bool) (table : Table)
  /-- A server's table, with the number of the client to which its channel leads. -/
  | server (server : Server Link) (client : Option Nat)

/-- Why an operation of a session does not come to an end. -/
inductive Stop where
  | fatal (error : Fatal)
  | undefinedClass

end Session

structure Session where
  heaps : Array Heap
  classes : Array ClassId
  saved : Array Address
  tables : Array (Option Session.Entry)
  /-- The numbers under which clients were created, whether or not they are still there. -/
  clients : List Nat
  /-- The numbers of the tables whose passes are running, the innermost first. -/
  compiling : List Nat
  /-- How many compilations have been announced. -/
  compilations : Nat

namespace Session

abbrev Run (α : Type) := Action Stop Session α

def empty : Session := ⟨#[], #[], #[], #[], [], [], 0⟩

namespace Entry

def role : Entry → Role
  | direct false _ => .sameProcess
  | direct true _ => .client
  | server _ _ => .server

def slots : Entry → SlotStore
  | direct _ t => t.slots
  | server s _ => s.slots

def endIndex (e : Entry) : Index := e.slots.size

/-- A compilation over this entry in one line. Only a server's table has such a text. -/
def compilationText? (id : Nat) : Entry → Option String
  | server s _ => some ("Compilation \x7b id: " ++ toString id ++ ", table: " ++ s.debugText ++ " \x7d")
  | _ => none

end Entry

def table? (s : Session) (n : Nat) : Option Entry :=
  if n ∈ s.compiling ∧ s.compiling.head? ≠ some n then none else (s.tables[n]?).join

/-- The table of a number, unless its pass is running. -/
def idleTable? (s : Session) (n : Nat) : Option Entry :=
  if n ∈ s.compiling then none else (s.tables[n]?).join

def setHeap (n : HeapId) (h : Heap) (s : Session) : Session :=
  { s with heaps := s.heaps.setIfInBounds n h }

def setTable (n : Nat) (e : Option Entry) (s : Session) : Session :=
  { s with tables := s.tables.setIfInBounds n e }

/-- A client with its heap, where a channel can lead to it. -/
def clientSite? (s : Session) (n : Nat) : Option Site :=
  match s.idleTable? n with
  | some (.direct true table) => (s.heaps[table.heapId]?).map fun heap => { heap, table }
  | _ => none

def setClientSite (n : Nat) (site : Option Site) (s : Session) : Session :=
  match site with
  | some site => (s.setHeap site.table.heapId site.heap).setTable n (some (.direct true site.table))
  | none => s

/-- The dump of a table while some heap may be held by its collector. -/
def dumpOf (s : Session) (held : Option HeapId) (e : Entry) (p : Printing) : Dump.Printed :=
  Dump.Document.print p.limit <|
    match e with
    | .direct _ t => Dump.read t p.options (if held = some t.heapId then none else s.heaps[t.heapId]?)
    | .server server _ => .server server.endIndex

end Session

end KnownObjects
