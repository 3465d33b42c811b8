import KnownObjects.Dump.Forest
import KnownObjects.Dump.Output

/-!
# Dumps of a table

The dump of a table is its listing, and after it the forest of its graph if that is asked for. A dump never gives up a compilation: where the heap cannot be had, or a handle leads nowhere, a line says so instead. A document is what a dump says, read off table and heap at once; its events are how that is printed and what is logged on the way.
-/

namespace KnownObjects

structure DumpOptions where
  graph : Bool
  /-- Whether mutable fields lead to children in the forest. -/
  mutableFields : Bool
deriving DecidableEq

namespace Dump

/-- What follows the rows of a listing. -/
inductive Ending where
  /-- The next handle leads nowhere, so that the listing stays open. -/
  | cut (error : HeapError)
  | listingOnly
  /-- A forest, with the number of marked objects and that of all known objects. -/
  | forest (marked known : Nat) (lines : List Line)
  /-- The graph could not be read, so that the forest stays open. -/
  | cutForest (error : HeapError)
deriving DecidableEq

inductive Document where
  /-- A server's table, whose contents are known only to the client. -/
  | server (bound : Index)
  /-- The heap is held by someone else. -/
  | noAccess (bound : Index)
  | listing (bound : Index) (rows : List Row) (ending : Ending)
deriving DecidableEq

/-- The forest of a table, or what keeps it from being read. -/
def readForest (heap : Heap) (t : Table) (mutableFields : Bool) : Ending :=
  match graph heap t with
  | .ok g => .forest (g.marked t.endIndex).size g.nodes.length (g.forest mutableFields t.endIndex)
  | .error e => .cutForest e

/-- What the dump of a table says, with the heap if it can be had. -/
def read (t : Table) (options : DumpOptions) : Option Heap → Document
  | none => .noAccess t.endIndex
  | some heap =>
    match rows heap t.slots.refs with
    | (rows, some e) => .listing t.endIndex (.null :: rows) (.cut e)
    | (rows, none) =>
      .listing t.endIndex (.null :: rows) <|
        if options.graph then readForest heap t options.mutableFields else .listingOnly

/-- The one line for a table whose contents are not printed. -/
private def summary (bound : Index) (reason : String) : String :=
  "<knownObjectTable size=" ++ Text.quoted bound.text ++ "/> // " ++ reason ++ "\n"

/-- What is logged and printed in place of what could not be read. -/
private def notice (e : HeapError) : List Event :=
  [.log ⟨.warn, "known object table dump cut short: " ++ e.message⟩,
    .text ("// known object dump incomplete: " ++ e.message ++ "\n")]

private def closeListing : Event := .text "</knownObjectTable>\n"

private def openForest : Event := .text "<knownObjectGraph>\n"

def Ending.events : Ending → List Event
  | cut e => notice e
  | listingOnly => [closeListing]
  | forest marked known lines =>
    [closeListing, openForest,
      .log ⟨.debug, "graph dump: " ++ toString marked ++ " of " ++ toString known ++
        " known objects reachable through final fields"⟩] ++
      lines.map (fun line => .text line.text) ++ [.text "</knownObjectGraph>\n"]
  | cutForest e => [closeListing, openForest] ++ notice e

def Document.events : Document → List Event
  | server bound =>
    [.text (summary bound "server-side table, contents are only printable at the client")]
  | noAccess bound =>
    [.log ⟨.warn, "known object table dump skipped, heap access unavailable"⟩,
      .text (summary bound "unable to acquire heap access to print table contents")]
  | listing bound rows ending =>
    [.text ("<knownObjectTable size=" ++ Text.quoted bound.text ++ ">\n"), .text headings] ++
      rows.map (fun row => .text row.text) ++ ending.events

/-- Prints a document into a sink that takes a number of characters, or any number of them. -/
def Document.print (limit : Option Nat) (d : Document) : Printed :=
  match limit with
  | some room => printWithin room d.events
  | none => printAll d.events

end Dump

end KnownObjects
