import KnownObjects.Table
import KnownObjects.Text

/-!
# The flat listing of a table

The listing has one row for each slot, with columns for the index, the handle, the address, the identity hash and the class. The rows are made in index order; the first handle that does not lead to an object ends them.
-/

namespace KnownObjects.Dump

inductive Row where
  | null
  | object (index : Index) (handle : Handle) (address : Address) (hash : UInt32) (className : String)
deriving DecidableEq

/-- An identity hash at the right edge of its column. -/
def hashText (hash : UInt32) : String := Text.right 8 (Text.hex hash.toNat)

/-- One row, without the line end: five columns, of which the last one is as wide as its text. -/
private def columns (id handle address hash className : String) : String :=
  "  " ++ Text.left 6 id ++ "   " ++ Text.left 8 handle ++ "   " ++ Text.left 14 address ++ " " ++
    hash ++ "   " ++ className

def Row.text : Row → String
  | null => columns "obj0" "" "" (Text.blanks 8) "NULL" ++ "\n"
  | object i h a hash className =>
    columns ("obj" ++ toString i.toNat) h.text a.text (hashText hash) className ++ "\n"

/-- The line above the rows. -/
def headings : String := columns "id" "Handle" "Address" (Text.left 8 "Hash") "Class" ++ "\n"

def row (heap : Heap) (i : Index) (h : Handle) : Except HeapError Row := do
  let a ← heap.resolve h
  let o ← heap.object a
  return .object i h a o.hash o.classInfo.name

/-- The rows up to the first handle that leads nowhere, and what is wrong with that one. -/
def rows (heap : Heap) : List (Index × Handle) → List Row × Option HeapError
  | [] => ([], none)
  | (i, h) :: rest =>
    match row heap i h with
    | .error e => ([], some e)
    | .ok r =>
      let others := rows heap rest
      (r :: others.1, others.2)

end KnownObjects.Dump
