import KnownObjects.Proofs.Table.Service

/-!
# Every site that comes about

`Site.Reached` is a new table and its heap after operations of any kind, among them those that give handles of the table back, so that its slots lead to other objects later on, or nowhere. What is left in every case is that the heap is well formed and that the slots fit.
-/

namespace KnownObjects.Site

inductive Reached : Site → Prop
  | start {heap : Heap} : heap.Reached → Reached ⟨heap, .empty heap.id⟩
  | performed {s : Site} (operation : Operation) : Reached s → (operation.next s).heap.WithinSpace →
    Reached (operation.next s)

def KeepsHeap (s t : Site) : Prop := s.heap.WellFormed → t.heap.WellFormed

instance : Std.Refl KeepsHeap := ⟨fun _ hs => hs⟩

instance : Trans KeepsHeap KeepsHeap KeepsHeap where
  trans hst htu hs := htu (hst hs)

private theorem keepsHeap_of_eq (s t : Site) (h : s = t) : KeepsHeap s t := by
  rw [h]
  exact Std.Refl.refl t

/-- A lookup changes the heap at most by a handle for an object that exists. -/
theorem Looked.keepsHeap {a : Address} {s t : Site} {r : Except Fatal Index} (h : Looked a s r t) : KeepsHeap s t := by
  intro hs
  cases h with
  | null | foreign | unreadable | known | stale => exact hs
  | full _ _ hlive => exact hs.withHandle hlive
  | learnt _ _ hlive => exact hs.withHandle hlive

theorem indexOf_keepsHeap (a : Address) : (indexOf a).Keeps KeepsHeap :=
  fun s => (looked_of_ends ((indexOf a).ends s)).keepsHeap

theorem existingIndexOf_keepsHeap (a : Address) : (existingIndexOf a).Keeps KeepsHeap :=
  (existingIndexOf_keeps a).mono keepsHeap_of_eq

theorem pointerOf_keepsHeap (i : Index) : (pointerOf i).Keeps KeepsHeap := (pointerOf_keeps i).mono keepsHeap_of_eq

theorem tagging_keepsHeap {lookup : Run Index} (h : lookup.Keeps KeepsHeap) (constant : Bool) :
    (tagging constant lookup).Keeps KeepsHeap := by
  refine h.bind fun i => ?_
  cases constant with
  | false => exact .pure i
  | true => exact Action.Keeps.bind (fun s hs => hs) fun _ => .pure i

theorem indexReply_keepsHeap (a : Address) : (indexReply a).Keeps KeepsHeap :=
  (indexOf_keepsHeap a).bind fun i => ((slot_keeps i).mono keepsHeap_of_eq).bind fun _ => .pure _

theorem serve_keepsHeap (request : Request) : (serve request).Keeps KeepsHeap := by
  cases request with
  | getIndex object =>
    refine (Action.Keeps.note _ _).bind fun _ => Action.Keeps.get.bind fun s => ?_
    split
    · exact indexReply_keepsHeap object
    · exact .pure _
  | getIndexAt location =>
    exact (Action.Keeps.note _ _).bind fun _ => withObjectAt_keeps location indexReply_keepsHeap
  | getExistingIndexAt location => exact (serve_getExistingIndexAt_keeps location).mono keepsHeap_of_eq
  | getPointer i => exact (serve_getPointer_keeps i).mono keepsHeap_of_eq

/-- An operation that stays within the address space keeps the heap well formed. -/
theorem wellFormed_next {s : Site} (hs : s.heap.WellFormed) (operation : Operation)
    (hspace : (operation.next s).heap.WithinSpace) : (operation.next s).heap.WellFormed := by
  have hkept : ∀ {run : Run Table.Answer}, run.Keeps KeepsHeap → (run.run s).state.heap.WellFormed :=
    fun hrun => hrun s hs
  cases operation with
  | heap operation => exact hs.change (Heap.perform_change s.heap operation) hspace
  | table operation =>
    cases operation with
    | endIndex | isNull | isTagged | tag => exact hs
    | slot i => exact hkept (((slot_keeps i).mono keepsHeap_of_eq).map _)
    | indexAt location constant =>
      have hread : (read location).Keeps KeepsHeap := (read_keeps location).mono keepsHeap_of_eq
      exact hkept ((tagging_keepsHeap (hread.bind indexOf_keepsHeap) constant).map _)
    | existingIndexAt location =>
      have hread : (read location).Keeps KeepsHeap := (read_keeps location).mono keepsHeap_of_eq
      exact hkept ((hread.bind existingIndexOf_keepsHeap).map _)
  | indexOf object constant => exact hkept ((tagging_keepsHeap (indexOf_keepsHeap object) constant).map _)
  | existingIndexOf object => exact hkept ((existingIndexOf_keepsHeap object).map _)
  | pointerOf i => exact hkept ((pointerOf_keepsHeap i).map _)
  | serve request => exact hkept ((serve_keepsHeap request).map _)

namespace Reached

variable {s : Site}

theorem wellFormed (h : s.Reached) : s.heap.WellFormed := by
  induction h with
  | start hheap => exact hheap.wellFormed
  | performed operation _ hspace ih => exact wellFormed_next ih operation hspace

theorem fits (h : s.Reached) : s.table.slots.Fits := by
  induction h with
  | start => exact SlotStore.empty_fits
  | performed operation _ _ ih => exact (perform_grows operation _ ih).1

end Reached

end KnownObjects.Site
