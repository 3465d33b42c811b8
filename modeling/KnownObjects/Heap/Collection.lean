import KnownObjects.Heap.Basic

/-!
# Collections

A collection moves every object, in the order of the addresses, to fresh ones at the frontier, and updates every reference and every handle slot accordingly. Nothing is freed: only addresses change.
-/

namespace KnownObjects.Heap

/-- Where objects move when they are laid out from a given number on: each old address with the new one. -/
def moves (settings : Settings) : Nat → List Object → List (Address × Address)
  | _, [] => []
  | next, o :: rest =>
    (o.address, Address.ofNat next) :: moves settings (next + settings.footprint o.values.length) rest

/-- The number that follows objects laid out from a given number on. -/
def frontierAfter (settings : Settings) (next : Nat) (objects : List Object) : Nat :=
  objects.foldl (fun n o => n + settings.footprint o.values.length) next

/-- Where an address leads after the moves. An address that is not among them stays as it is. -/
def forward (moves : List (Address × Address)) (a : Address) : Address := (moves.lookup a).getD a

def forwardValue (moves : List (Address × Address)) : Value → Value
  | .ref target => .ref (forward moves target)
  | v => v

def collect (h : Heap) : Nat × Heap :=
  let moves := moves h.settings h.frontier h.objects
  (h.objects.length, { h with
    objects := h.objects.map fun o =>
      { o with address := forward moves o.address, values := o.values.map (forwardValue moves) }
    frontier := frontierAfter h.settings h.frontier h.objects
    handles := h.handles.mapSlots (forward moves)
    collections := h.collections + 1 })

/-- What is logged about a collection, once it is done. -/
def collectionText (h : Heap) : String :=
  "collection " ++ toString h.collections ++ ": relocated " ++ toString h.objects.length ++ " objects"

end KnownObjects.Heap
