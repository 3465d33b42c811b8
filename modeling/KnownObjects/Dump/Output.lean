import KnownObjects.Outcome

/-!
# Printing into a sink of limited size

A dump is a sequence of pieces of text, between which records are logged. It is printed into a sink that may take only so many characters. A sink that is full cuts the piece that does not fit and ends the dump there, so that neither text nor records follow.
-/

namespace KnownObjects.Dump

inductive Event where
  | text (piece : String)
  | log (record : LogRecord)
deriving DecidableEq

structure Printed where
  text : String
  /-- Whether the sink was full before the end. -/
  failed : Bool
  log : List LogRecord
deriving DecidableEq

namespace Printed

def nothing : Printed := ⟨"", false, []⟩

def after (piece : String) (p : Printed) : Printed := { p with text := piece ++ p.text }

end Printed

/-- Prints into a sink that takes `room` characters. -/
def printWithin (room : Nat) : List Event → Printed
  | [] => .nothing
  | .log r :: rest =>
    let p := printWithin room rest
    { p with log := r :: p.log }
  | .text piece :: rest =>
    if piece.length ≤ room then (printWithin (room - piece.length) rest).after piece
    else ⟨String.ofList (piece.toList.take room), true, []⟩

def printAll : List Event → Printed
  | [] => .nothing
  | .log r :: rest =>
    let p := printAll rest
    { p with log := r :: p.log }
  | .text piece :: rest => (printAll rest).after piece

end KnownObjects.Dump
