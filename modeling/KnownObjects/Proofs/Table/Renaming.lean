import KnownObjects.Proofs.Heap.Renaming
import KnownObjects.Proofs.Table.Service

/-!
# Tables over renamed heaps

Two sites are renamed into each other when their heaps are and their tables are the same. A lookup compares addresses only with one another, so it finds the same index on either side, or learns the same handle; every operation of a table keeps two such sites in step under one and the same renaming. What an operation gives back is the same up to the addresses in it: a pointer is renamed, and so are the address in an error and the one in the text of a refusal.
-/

namespace KnownObjects

def Fatal.rename (f : Address → Address) : Fatal → Fatal
  | .heap cause => .heap (cause.rename f)
  | e => e

def Reply.rename (f : Address → Address) : Reply → Reply
  | .pointer a => .pointer (f a)
  | r => r

/-- The same response up to the addresses in it. A refusal is the text of an error, with the error's address replaced by its name. -/
inductive Response.Matches (f : Address → Address) : Response → Response → Prop
  | reply (r : Reply) : Matches f (.reply r) (.reply (r.rename f))
  | refusal (e : Fatal) : Matches f (.refusal e.message) (.refusal (e.rename f).message)

inductive Table.Answer.Matches (f : Address → Address) : Table.Answer → Table.Answer → Prop
  | index (i : Index) : Matches f (.index i) (.index i)
  | flag (value : Bool) : Matches f (.flag value) (.flag value)
  | slot (s : Slot) : Matches f (.slot s) (.slot s)
  | pointer (a : Address) : Matches f (.pointer a) (.pointer (f a))
  | response {r q : Response} : r.Matches f q → Matches f (.response r) (.response q)
  | done : Matches f .done .done

theorem Table.search_cons (h : Heap) (a : Address) (i : Index) (handle : Handle) (rest : List (Index × Handle)) :
    search h a ((i, handle) :: rest) =
      h.resolve handle >>= fun b => if b = a then .ok (some i) else search h a rest := by
  rw [search]
  cases h.resolve handle <;> rfl

theorem Heap.Renamed.search {ρ : Renaming} {h k : Heap} (hk : h.Renamed ρ k) (a : Address)
    (row : List (Index × Handle)) : Heap.Alike ρ Eq (Table.search h a row) (Table.search k (ρ a) row) := by
  induction row with
  | nil => exact .ok rfl
  | cons entry rest ih =>
    obtain ⟨i, handle⟩ := entry
    rw [Table.search_cons, Table.search_cons]
    refine (hk.resolve handle).bind_map fun b => ?_
    simp only [ρ.apply_eq_iff]
    split
    · exact .ok rfl
    · exact ih

namespace Site

/-- The heaps are renamed, the tables are the same. -/
structure Renamed (f : Address → Address) (s t : Site) : Prop where
  heap : s.heap.Renamed f t.heap
  table : t.table = s.table

/-- Two runs at a site that keep renamed sites renamed, and give related results or are given up with the same error up to its address. -/
abbrev Coupled {α β : Type} (ρ : Renaming) (R : α → β → Prop) (a : Run α) (b : Run β) : Prop :=
  Action.Coupled (Renamed ρ) (fun e d => d = Fatal.rename ρ e) R a b

namespace Coupled

variable {ρ : Renaming} {α β : Type} {R : α → β → Prop}

/-- What depends on the heap only. -/
theorem ofHeap {x : Except HeapError α} {y : Except HeapError β} (h : Heap.Alike ρ R x y) :
    Coupled ρ R (.orRaise .heap x) (.orRaise .heap y) := by
  refine Action.Coupled.orRaise h ?_
  rintro e _ rfl
  rfl

theorem raise {e : Fatal} (he : e.rename ρ = e) : Coupled ρ R (.raise e) (.raise e) :=
  fun _ _ hs => ⟨.error he.symm, hs⟩

theorem checkHeap : Coupled ρ Eq Site.checkHeap Site.checkHeap := by
  refine Action.Coupled.get.bind fun s t hs => ?_
  rw [hs.heap.id, hs.table]
  split
  · exact .pure rfl
  · exact raise rfl

theorem slot (i : Index) : Coupled ρ Eq (Site.slot i) (Site.slot i) := by
  refine Action.Coupled.get.bind fun s t hs => ?_
  rw [hs.table, SlotStore.get]
  split
  · exact .pure rfl
  · exact raise rfl

theorem read (location : Location) : Coupled ρ (fun a b => b = ρ a) (Site.read location) (Site.read location) :=
  Action.Coupled.get.bind fun _ _ hs => ofHeap (hs.heap.read location)

theorem find {s t : Site} (hs : Renamed ρ s t) (a : Address) :
    Coupled ρ Eq (.orRaise .heap (s.table.find s.heap a)) (.orRaise .heap (t.table.find t.heap (ρ a))) := by
  rw [hs.table]
  exact .ofHeap (hs.heap.search a _)

/-- A change of the table that looks at nothing else. -/
theorem retable (change : Table → Table) :
    Coupled ρ Eq (modify fun s => { s with table := change s.table }) (modify fun s => { s with table := change s.table }) :=
  .modify fun _ _ hs => ⟨hs.heap, congrArg change hs.table⟩

theorem learn (a : Address) : Coupled ρ Eq (Site.learn a) (Site.learn (ρ a)) := by
  refine Action.Coupled.get.bind fun s t hs => ?_
  refine (ofHeap (hs.heap.newHandle a)).bind ?_
  rintro ⟨handle, h⟩ ⟨other, k⟩ ⟨heq, hk⟩
  obtain rfl : other = handle := heq
  refine (Action.Coupled.set ⟨hk, hs.table⟩).bind_eq fun _ => ?_
  rw [hs.table, SlotStore.append]
  cases s.table.slots.append? other with
  | none => exact Action.Coupled.bind (raise (R := fun _ _ => False) rfl) fun _ _ h => h.elim
  | some added =>
    refine Action.Coupled.bind_eq (.pure rfl) fun added => ?_
    refine (retable fun t => { t with slots := added.2 }).bind_eq fun _ => ?_
    exact (Action.Coupled.note _ _ _).bind_eq fun _ => .pure rfl

theorem indexOf (a : Address) : Coupled ρ Eq (Site.indexOf a) (Site.indexOf (ρ a)) := by
  simp only [Site.indexOf, ρ.isNull_apply]
  split
  · exact .pure rfl
  · refine checkHeap.bind_eq fun _ => Action.Coupled.get.bind fun s t hs => (find hs a).bind_eq fun found => ?_
    cases found with
    | some i => exact (Action.Coupled.note _ _ _).bind_eq fun _ => .pure rfl
    | none => exact learn a

theorem existingIndexOf (a : Address) : Coupled ρ Eq (Site.existingIndexOf a) (Site.existingIndexOf (ρ a)) := by
  simp only [Site.existingIndexOf, ρ.isNull_apply]
  split
  · exact .pure rfl
  · refine checkHeap.bind_eq fun _ => Action.Coupled.get.bind fun s t hs => (find hs a).bind_eq fun found => ?_
    exact .pure rfl

theorem pointerOf (i : Index) : Coupled ρ (fun a b => b = ρ a) (Site.pointerOf i) (Site.pointerOf i) := by
  refine (slot i).bind_eq fun s => ?_
  cases s with
  | null => exact .pure ρ.null.symm
  | ref handle =>
    exact checkHeap.bind_eq fun _ => Action.Coupled.get.bind fun _ _ hs => ofHeap (hs.heap.resolve handle)

theorem tag (i : Index) : Coupled ρ Eq (Site.tag i) (Site.tag i) := retable (·.tag i)

theorem tagging (constant : Bool) {lookup other : Run Index} (h : Coupled ρ Eq lookup other) :
    Coupled ρ Eq (Site.tagging constant lookup) (Site.tagging constant other) := by
  refine h.bind_eq fun i => ?_
  cases constant with
  | false => exact .pure rfl
  | true => exact (tag i).bind_eq fun _ => .pure rfl

theorem indexAt (location : Location) (constant : Bool) :
    Coupled ρ Eq (Site.indexAt location constant) (Site.indexAt location constant) :=
  tagging constant ((read location).bind_map indexOf)

theorem existingIndexAt (location : Location) :
    Coupled ρ Eq (Site.existingIndexAt location) (Site.existingIndexAt location) :=
  (read location).bind_map existingIndexOf

theorem indexReply (a : Address) :
    Coupled ρ (Response.Matches ρ) (Site.indexReply a) (Site.indexReply (ρ a)) := by
  refine (indexOf a).bind_eq fun i => ?_
  refine (slot i).bind_eq fun s => ?_
  exact .pure (.reply (.index i s))

theorem withObjectAt (location : Location) {answer : Address → Run Response}
    (h : ∀ a, Coupled ρ (Response.Matches ρ) (answer a) (answer (ρ a))) :
    Coupled ρ (Response.Matches ρ) (Site.withObjectAt location answer) (Site.withObjectAt location answer) := by
  refine Action.Coupled.get.bind fun s t hs => ?_
  rcases (hs.heap.read location).ok_or_error with ⟨a, _, hs, ht, rfl⟩ | ⟨e, _, hs, ht, rfl⟩
  · rw [hs, ht]
    exact h a
  · rw [hs, ht]
    exact .pure (.refusal (.heap e))

/-- A request that names what it asks about by a place or an index. -/
theorem serve {request : Request} (hrequest : ∀ a, request ≠ .getIndex a) :
    Coupled ρ (Response.Matches ρ) (Site.serve request) (Site.serve request) := by
  refine (Action.Coupled.note _ _ _).bind_eq fun _ => ?_
  cases request with
  | getIndex a => exact absurd rfl (hrequest a)
  | getIndexAt location => exact withObjectAt location indexReply
  | getExistingIndexAt location =>
    exact withObjectAt location fun a => (existingIndexOf a).bind_eq fun i => .pure (.reply (.existingIndex i))
  | getPointer i =>
    refine Action.Coupled.get.bind fun s t hs => ?_
    rw [hs.table]
    dsimp only
    split
    · exact .pure (.refusal (.indexOutOfRange i s.table.endIndex))
    · exact (pointerOf i).bind_map fun a => .pure (.reply (.pointer a))

theorem onTable (operation : Table.Operation) :
    Coupled ρ (Table.Answer.Matches ρ) (Site.onTable operation) (Site.onTable operation) := by
  cases operation with
  | endIndex =>
    refine Action.Coupled.get.bind fun s t hs => ?_
    rw [hs.table]
    exact .pure (.index _)
  | isNull i => exact .pure (.flag _)
  | slot i => exact (slot i).map fun s _ h => h ▸ .slot s
  | indexAt location constant => exact (indexAt location constant).map fun i _ h => h ▸ .index i
  | existingIndexAt location => exact (existingIndexAt location).map fun i _ h => h ▸ .index i
  | tag i => exact (tag i).bind_eq fun _ => .pure .done
  | isTagged i =>
    refine Action.Coupled.get.bind fun s t hs => ?_
    rw [hs.table]
    exact .pure (.flag _)

/-- A table at its end gives back the same handles. -/
theorem dropTable : Coupled ρ Eq Site.dropTable Site.dropTable := by
  refine Action.Coupled.get.bind fun s t hs => ?_
  rw [hs.table]
  have hreleased := hs.heap.release s.table.slots.handles
  refine (Action.Coupled.set ⟨hreleased.2, rfl⟩).bind_eq fun _ => ?_
  exact .note _ _ _

end Coupled

end Site

end KnownObjects
