import KnownObjects.Proofs.Dump.Renaming
import KnownObjects.Proofs.Table.Reached

/-!
# Collections do not show

A host is a heap with tables over it. What can be asked of a host names objects by handles, by places and by indices, and never by addresses. A run of such operations is compared with one in which collections take place in between: every operation gets the same answer in both, up to the addresses in it. At each point of the two runs one renaming accounts for all of these addresses, those in errors and in printed text included, and for everything on the two heaps.

Only an allocation and a collection change the renaming. All else is done at two hosts that are renamed into each other by one and the same renaming.
-/

namespace KnownObjects

/-- What a client is asked without an address. -/
inductive Inquiry where
  | indexAt (location : Location)
  | existingIndexAt (location : Location)
  | pointer (index : Index)
deriving DecidableEq

def Inquiry.request : Inquiry → Request
  | indexAt location => .getIndexAt location
  | existingIndexAt location => .getExistingIndexAt location
  | pointer i => .getPointer i

/-- A heap and the tables over it, in the order of their creation. A table that was dropped leaves a gap. -/
structure Host where
  heap : Heap
  tables : List (Option Table)

namespace Host

inductive Operation where
  | define (classInfo : ClassInfo)
  | allocate (classId : ClassId)
  | store (holder : Handle) (field : String) (value : NewValue)
  | release (handles : List Handle)
  /-- Asks for another handle of the same object. -/
  | duplicate (handle : Handle)
  | read (location : Location)
  | hashOf (handle : Handle)
  | classOf (handle : Handle)
  | fieldAt (handle : Handle) (slot : UInt64)
  | field (handle : Handle) (name : String)
  | createTable
  | dropTable (k : Nat)
  | table (k : Nat) (operation : Table.Operation)
  | pointerOf (k : Nat) (index : Index)
  | serve (k : Nat) (inquiry : Inquiry)
  | dump (k : Nat) (options : DumpOptions)
deriving DecidableEq

inductive Answer where
  | heap (answer : Heap.Answer)
  | address (found : Except HeapError Address)
  | hash (found : Except HeapError UInt32)
  | classInfo (found : Except HeapError ClassInfo)
  | value (found : Except HeapError Value)
  | tableNumber (k : Nat)
  | table (result : Except Fatal Table.Answer)
  | dumped (printed : Dump.Printed)
  | dropped
  | noTable

def onHeap (s : Host) (operation : Heap.Operation) : Answer × Host :=
  (.heap (s.heap.perform operation).1, { s with heap := (s.heap.perform operation).2 })

def table? (s : Host) (k : Nat) : Option Table := s.tables[k]?.join

/-- Performs an operation at a table, if there is one. -/
def atTable (s : Host) (k : Nat) (operation : Site.Operation) : Answer × Host :=
  match s.table? k with
  | some table =>
    let o := (Site.perform operation).run ⟨s.heap, table⟩
    (.table o.result, { heap := o.state.heap, tables := s.tables.set k (some o.state.table) })
  | none => (.noTable, s)

/-- What an operation answers, and the host that it leaves. -/
def perform (s : Host) : Operation → Answer × Host
  | .define classInfo => s.onHeap (.define classInfo)
  | .allocate classId => s.onHeap (.allocate classId)
  | .store holder field value => s.onHeap (.store holder field value)
  | .release handles => s.onHeap (.release handles)
  | .duplicate handle =>
    match s.heap.resolve handle with
    | .ok a => s.onHeap (.newHandle a)
    | .error e => (.heap (.refused e), s)
  | .read location => (.address (s.heap.read location), s)
  | .hashOf handle => (.hash (s.heap.resolve handle >>= s.heap.hashOf), s)
  | .classOf handle => (.classInfo (s.heap.resolve handle >>= s.heap.classOf), s)
  | .fieldAt handle slot => (.value (s.heap.resolve handle >>= (s.heap.fieldAt · slot)), s)
  | .field handle name => (.value (s.heap.resolve handle >>= (s.heap.field · name)), s)
  | .createTable => (.tableNumber s.tables.length, { s with tables := s.tables ++ [some (.empty s.heap.id)] })
  | .dropTable k =>
    match s.table? k with
    | some table =>
      let o := (Site.dropTable : Site.Run Unit).run ⟨s.heap, table⟩
      (.dropped, { heap := o.state.heap, tables := s.tables.set k none })
    | none => (.noTable, s)
  | .table k operation => s.atTable k (.table operation)
  | .pointerOf k i => s.atTable k (.pointerOf i)
  | .serve k inquiry => s.atTable k (.serve inquiry.request)
  | .dump k options =>
    match s.table? k with
    | some table => (.dumped ((Dump.read table options (some s.heap)).print none), s)
    | none => (.noTable, s)

section

variable (s : Host)

theorem perform_define (c : ClassInfo) : s.perform (.define c) = s.onHeap (.define c) := rfl

theorem perform_allocate (classId : ClassId) : s.perform (.allocate classId) = s.onHeap (.allocate classId) := rfl

theorem perform_store (holder : Handle) (field : String) (value : NewValue) :
    s.perform (.store holder field value) = s.onHeap (.store holder field value) := rfl

theorem perform_release (handles : List Handle) : s.perform (.release handles) = s.onHeap (.release handles) := rfl

theorem perform_duplicate (handle : Handle) : s.perform (.duplicate handle) =
    match s.heap.resolve handle with
    | .ok a => s.onHeap (.newHandle a)
    | .error e => (.heap (.refused e), s) := rfl

theorem perform_createTable : s.perform .createTable =
    (.tableNumber s.tables.length, { s with tables := s.tables ++ [some (.empty s.heap.id)] }) := rfl

theorem perform_dropTable (k : Nat) : s.perform (.dropTable k) =
    match s.table? k with
    | some table =>
      (.dropped, ⟨((Site.dropTable : Site.Run Unit).run ⟨s.heap, table⟩).state.heap, s.tables.set k none⟩)
    | none => (.noTable, s) := rfl

theorem perform_dump (k : Nat) (options : DumpOptions) : s.perform (.dump k options) =
    match s.table? k with
    | some table => (.dumped ((Dump.read table options (some s.heap)).print none), s)
    | none => (.noTable, s) := rfl

end

def collected (s : Host) : Host := { s with heap := s.heap.collect.2 }

/-- The answers to a row of operations, each with the host that it leaves. -/
def performAll (s : Host) : List Operation → List (Answer × Host)
  | [] => []
  | operation :: rest => s.perform operation :: performAll (s.perform operation).2 rest

/-- What happens at a host where collections take place. -/
inductive Move where
  | collect
  | operate (operation : Operation)
deriving DecidableEq

def Move.operation? : Move → Option Operation
  | collect => none
  | operate operation => some operation

/-- The operations that are left when no collection takes place. -/
def operations (script : List Move) : List Operation := script.filterMap Move.operation?

def runAll (s : Host) : List Move → List (Answer × Host)
  | [] => []
  | .collect :: rest => runAll s.collected rest
  | .operate operation :: rest => s.perform operation :: runAll (s.perform operation).2 rest

def next (s : Host) : Move → Host
  | .collect => s.collected
  | .operate operation => (s.perform operation).2

/-- No move runs out of addresses. -/
def Permits (s : Host) : List Move → Prop
  | [] => True
  | move :: rest => (s.next move).heap.WithinSpace ∧ Permits (s.next move) rest

instance decidablePermits : (s : Host) → (script : List Move) → Decidable (s.Permits script)
  | _, [] => isTrue trivial
  | s, move :: rest =>
    have := decidablePermits (s.next move) rest
    inferInstanceAs (Decidable (_ ∧ _))

end Host

def Heap.Answer.rename (f : Address → Address) : Heap.Answer → Heap.Answer
  | .refused e => .refused (e.rename f)
  | answer => answer

namespace Host

/-- The same answer up to the addresses in it. A dump prints the same document, with the addresses in it replaced by their names. -/
inductive Answer.Matches (f : Address → Address) : Answer → Answer → Prop
  | heap (answer : Heap.Answer) : Matches f (.heap answer) (.heap (answer.rename f))
  | address {found other : Except HeapError Address} : Heap.Alike f (fun a b => b = f a) found other →
    Matches f (.address found) (.address other)
  | hash {found other : Except HeapError UInt32} : Heap.Alike f Eq found other → Matches f (.hash found) (.hash other)
  | classInfo {found other : Except HeapError ClassInfo} : Heap.Alike f Eq found other →
    Matches f (.classInfo found) (.classInfo other)
  | value {found other : Except HeapError Value} : Heap.Alike f (fun v w => w = v.rename f) found other →
    Matches f (.value found) (.value other)
  | tableNumber (k : Nat) : Matches f (.tableNumber k) (.tableNumber k)
  | table {result other : Except Fatal Table.Answer} :
    Except.Matched (fun e d => d = Fatal.rename f e) (Table.Answer.Matches f) result other →
    Matches f (.table result) (.table other)
  | dumped (document : Dump.Document) : Matches f (.dumped (document.print none)) (.dumped ((document.rename f).print none))
  | dropped : Matches f .dropped .dropped
  | noTable : Matches f .noTable .noTable

/-- The heaps are renamed, the tables are the same. -/
structure Renamed (f : Address → Address) (s t : Host) : Prop where
  heap : s.heap.Renamed f t.heap
  tables : t.tables = s.tables

/-- Two answers, with the hosts that they were given at, that one renaming accounts for. -/
def Agree (x y : Answer × Host) : Prop := ∃ ρ : Renaming, x.1.Matches ρ y.1 ∧ Renamed ρ x.2 y.2

/-! ### Operations on the heap -/

namespace Renamed

variable {ρ : Renaming} {s t : Host}

theorem define (hs : Renamed ρ s t) (c : ClassInfo) : Agree (s.perform (.define c)) (t.perform (.define c)) := by
  refine ⟨ρ, ?_, hs.heap.define c, hs.tables⟩
  simp only [perform_define, onHeap, Heap.perform, Heap.define]
  rw [hs.heap.classes]
  exact .heap (.classNumber s.heap.classes.length)

theorem allocate (hs : Renamed ρ s t) (hheap : s.heap.WellFormed) (hother : t.heap.WellFormed) (classId : ClassId)
    (hspace : (t.perform (.allocate classId)).2.heap.WithinSpace) :
    Agree (s.perform (.allocate classId)) (t.perform (.allocate classId)) := by
  simp only [perform_allocate, onHeap, Heap.perform, Heap.allocate] at hspace ⊢
  rw [hs.heap.classes] at hspace ⊢
  cases hclass : s.heap.classes[classId]? with
  | none => exact ⟨ρ, .heap .undefinedClass, hs⟩
  | some c =>
    rw [hclass] at hspace
    obtain ⟨hhandle, ρ', hheaps⟩ := hs.heap.instantiate hheap hother (Nat.lt_of_le_of_lt (Nat.le_add_right _ _) hspace) c
    refine ⟨ρ', ?_, hheaps, hs.tables⟩
    simp only [Option.map_some, hhandle]
    exact .heap (.handle (s.heap.instantiate c).1)

theorem store (hs : Renamed ρ s t) (holder : Handle) (field : String) (value : NewValue) :
    Agree (s.perform (.store holder field value)) (t.perform (.store holder field value)) := by
  simp only [perform_store, onHeap, Heap.perform]
  rcases (hs.heap.store holder field value).ok_or_error with ⟨h, k, hfirst, hsecond, hheaps⟩ | ⟨e, _, hfirst, hsecond, rfl⟩
  · rw [hfirst, hsecond]
    exact ⟨ρ, .heap .done, hheaps, hs.tables⟩
  · rw [hfirst, hsecond]
    exact ⟨ρ, .heap (.refused e), hs⟩

theorem release (hs : Renamed ρ s t) (handles : List Handle) :
    Agree (s.perform (.release handles)) (t.perform (.release handles)) := by
  obtain ⟨hcount, hheaps⟩ := hs.heap.release handles
  refine ⟨ρ, ?_, hheaps, hs.tables⟩
  simp only [perform_release, onHeap, Heap.perform, hcount]
  exact .heap (.count (s.heap.release handles).1)

theorem duplicate (hs : Renamed ρ s t) (handle : Handle) :
    Agree (s.perform (.duplicate handle)) (t.perform (.duplicate handle)) := by
  simp only [perform_duplicate]
  rcases (hs.heap.resolve handle).ok_or_error with ⟨a, _, hfirst, hsecond, rfl⟩ | ⟨e, _, hfirst, hsecond, rfl⟩
  · rw [hfirst, hsecond]
    simp only [onHeap, Heap.perform]
    rcases (hs.heap.newHandle a).ok_or_error with
      ⟨⟨made, h⟩, ⟨other, k⟩, hfirst, hsecond, heq, hheaps⟩ | ⟨e, _, hfirst, hsecond, rfl⟩
    · obtain rfl : other = made := heq
      rw [hfirst, hsecond]
      exact ⟨ρ, .heap (.handle other), hheaps, hs.tables⟩
    · rw [hfirst, hsecond]
      exact ⟨ρ, .heap (.refused e), hs⟩
  · rw [hfirst, hsecond]
    exact ⟨ρ, .heap (.refused e), hs⟩

/-! ### Operations at a table -/

theorem table? (hs : Renamed ρ s t) (k : Nat) : t.table? k = s.table? k := by
  simp only [Host.table?, hs.tables]

theorem atTable (hs : Renamed ρ s t) (k : Nat) {operation : Site.Operation}
    (h : Site.Coupled ρ (Table.Answer.Matches ρ) (Site.perform operation) (Site.perform operation)) :
    Agree (s.atTable k operation) (t.atTable k operation) := by
  simp only [Host.atTable, hs.table? k]
  cases s.table? k with
  | none => exact ⟨ρ, .noTable, hs⟩
  | some table =>
    obtain ⟨hresult, hsites⟩ := h ⟨s.heap, table⟩ ⟨t.heap, table⟩ ⟨hs.heap, rfl⟩
    refine ⟨ρ, .table hresult, hsites.heap, ?_⟩
    simp only [hsites.table, hs.tables]

theorem dropTable (hs : Renamed ρ s t) (k : Nat) : Agree (s.perform (.dropTable k)) (t.perform (.dropTable k)) := by
  simp only [perform_dropTable, hs.table? k]
  cases s.table? k with
  | none => exact ⟨ρ, .noTable, hs⟩
  | some table =>
    have hsites := (Site.Coupled.dropTable (ρ := ρ) ⟨s.heap, table⟩ ⟨t.heap, table⟩ ⟨hs.heap, rfl⟩).2
    exact ⟨ρ, .dropped, hsites.heap, congrArg (·.set k none) hs.tables⟩

theorem dump (hs : Renamed ρ s t) (k : Nat) (options : DumpOptions) :
    Agree (s.perform (.dump k options)) (t.perform (.dump k options)) := by
  simp only [perform_dump, hs.table? k]
  cases s.table? k with
  | none => exact ⟨ρ, .noTable, hs⟩
  | some table =>
    simp only [Dump.read_renamed hs.heap]
    exact ⟨ρ, .dumped _, hs⟩

/-- What is asked of the object behind a handle changes nothing. -/
theorem ofResolved (hs : Renamed ρ s t) (handle : Handle) {α : Type} {R : α → α → Prop}
    {f g : Address → Except HeapError α} {answer : Except HeapError α → Answer}
    (h : ∀ a, Heap.Alike ρ R (f a) (g (ρ a)))
    (hanswer : ∀ {x y}, Heap.Alike ρ R x y → (answer x).Matches ρ (answer y)) :
    Agree (answer (s.heap.resolve handle >>= f), s) (answer (t.heap.resolve handle >>= g), t) := by
  refine ⟨ρ, hanswer ((hs.heap.resolve handle).bind ?_), hs⟩
  rintro a _ rfl
  exact h a

/-- Every operation agrees at hosts that are renamed into each other. -/
theorem perform (hs : Renamed ρ s t) (hheap : s.heap.WellFormed) (hother : t.heap.WellFormed) (operation : Operation)
    (hspace : (t.perform operation).2.heap.WithinSpace) : Agree (s.perform operation) (t.perform operation) := by
  cases operation with
  | define c => exact hs.define c
  | allocate classId => exact hs.allocate hheap hother classId hspace
  | store holder field value => exact hs.store holder field value
  | release handles => exact hs.release handles
  | duplicate handle => exact hs.duplicate handle
  | read location => exact ⟨ρ, .address (hs.heap.read location), hs⟩
  | hashOf handle => exact hs.ofResolved handle hs.heap.hashOf .hash
  | classOf handle => exact hs.ofResolved handle hs.heap.classOf .classInfo
  | fieldAt handle slot => exact hs.ofResolved handle (fun a => hs.heap.fieldAt a slot) .value
  | field handle name => exact hs.ofResolved handle (fun a => hs.heap.field a name) .value
  | createTable =>
    refine ⟨ρ, ?_, hs.heap, ?_⟩
    · simp only [perform_createTable, hs.tables]
      exact .tableNumber s.tables.length
    · simp only [perform_createTable, hs.tables, hs.heap.id]
  | dropTable k => exact hs.dropTable k
  | table k operation => exact hs.atTable k (.onTable operation)
  | pointerOf k i => exact hs.atTable k ((Site.Coupled.pointerOf i).map fun a _ h => h ▸ .pointer a)
  | serve k inquiry =>
    have hrequest : ∀ a, inquiry.request ≠ .getIndex a := by
      intro a
      cases inquiry <;> simp [Inquiry.request]
    exact hs.atTable k ((Site.Coupled.serve hrequest).map fun _ _ h => .response h)
  | dump k options => exact hs.dump k options

end Renamed

/-! ### Runs -/

theorem wellFormed_atTable {s : Host} (hs : s.heap.WellFormed) (k : Nat) (operation : Site.Operation)
    (hspace : (s.atTable k operation).2.heap.WithinSpace) : (s.atTable k operation).2.heap.WellFormed := by
  simp only [atTable] at hspace ⊢
  cases htable : s.table? k with
  | none => exact hs
  | some table =>
    rw [htable] at hspace
    exact Site.wellFormed_next (s := ⟨s.heap, table⟩) hs operation hspace

theorem wellFormed_perform {s : Host} (hs : s.heap.WellFormed) (operation : Operation)
    (hspace : (s.perform operation).2.heap.WithinSpace) : (s.perform operation).2.heap.WellFormed := by
  cases operation with
  | define c => exact hs.define c
  | allocate classId => exact hs.change (Heap.perform_change s.heap (.allocate classId)) hspace
  | store holder field value => exact hs.change (Heap.perform_change s.heap (.store holder field value)) hspace
  | release handles => exact hs.release handles
  | duplicate handle =>
    simp only [perform_duplicate] at hspace ⊢
    cases hresolve : s.heap.resolve handle with
    | error e => exact hs
    | ok a =>
      rw [hresolve] at hspace
      exact hs.change (Heap.perform_change s.heap (.newHandle a)) hspace
  | read | hashOf | classOf | fieldAt | field | createTable => exact hs
  | dropTable k =>
    simp only [perform_dropTable]
    cases s.table? k with
    | none => exact hs
    | some table => exact hs.release table.slots.handles
  | table k operation => exact wellFormed_atTable hs k _ hspace
  | pointerOf k i => exact wellFormed_atTable hs k _ hspace
  | serve k inquiry => exact wellFormed_atTable hs k _ hspace
  | dump k options =>
    simp only [perform_dump]
    cases s.table? k <;> exact hs

/-- From renamed hosts, a run agrees with one in which collections take place. -/
theorem Renamed.runAll {ρ : Renaming} {s t : Host} (hs : Renamed ρ s t) (hheap : s.heap.WellFormed)
    (hother : t.heap.WellFormed) (script : List Move) (hpermitted : t.Permits script) :
    List.Forall₂ Agree (s.performAll (operations script)) (t.runAll script) := by
  -- The renaming is a new one after many of the moves. What carries the induction is that there is one.
  induction script generalizing ρ s t with
  | nil => exact .nil
  | cons move rest ih =>
    obtain ⟨hspace, hrest⟩ := hpermitted
    cases move with
    | collect =>
      obtain ⟨ρ', hheaps⟩ := hs.heap.collect hheap hother hspace
      exact ih ⟨hheaps, hs.tables⟩ hheap (hother.collect hspace) hrest
    | operate operation =>
      obtain ⟨ρ', hanswers, hafter⟩ := hs.perform hheap hother operation hspace
      have hspace' : (s.perform operation).2.heap.WithinSpace := Nat.lt_of_le_of_lt hafter.heap.ahead hspace
      exact .cons ⟨ρ', hanswers, hafter⟩ (ih hafter (wellFormed_perform hheap operation hspace')
        (wellFormed_perform hother operation hspace) hrest)

theorem Renamed.refl (s : Host) : Renamed Renaming.refl s s := ⟨.refl s.heap, rfl⟩

/-- However collections are put into a row of operations, each operation gets the same answer as without them, up to the addresses in it. -/
theorem agree_under_collections {heap : Heap} (hheap : heap.Reached) (script : List Move)
    (hpermitted : Permits ⟨heap, []⟩ script) :
    List.Forall₂ Agree (performAll ⟨heap, []⟩ (operations script)) (runAll ⟨heap, []⟩ script) :=
  (Renamed.refl ⟨heap, []⟩).runAll hheap.wellFormed hheap.wellFormed script hpermitted

/-- Pointers, a refusal and a dump are answered between three collections, and after them a handle that leads nowhere. -/
theorem agree_under_three_collections : ∃ (heap : Heap) (script : List Move),
    heap.Reached ∧ Permits ⟨heap, []⟩ script ∧
      List.Forall₂ Agree (performAll ⟨heap, []⟩ (operations script)) (runAll ⟨heap, []⟩ script) := by
  let heap : Heap := ⟨0, .default, [], [], 0x1000, 0x9e3779b9, .empty, 0⟩
  have hheap : heap.Reached := @Heap.Reached.created 0 .default heap rfl
  let script : List Move := [
    .operate (.define ⟨"p/Node", [.ofSignature "next" "Lp/Node;", .ofSignature "n" "I"], false⟩),
    .operate (.allocate 0), .collect, .operate (.allocate 0), .operate (.store ⟨0⟩ "next" (.ref ⟨1⟩)),
    .operate .createTable, .operate (.table 0 (.indexAt (.field ⟨0⟩ 0) true)), .collect,
    .operate (.serve 0 (.pointer (.ofNat 1))), .operate (.fieldAt ⟨0⟩ 7), .operate (.dump 0 ⟨true, true⟩),
    .operate (.release [⟨1⟩]), .collect, .operate (.hashOf ⟨1⟩), .operate (.read (.field ⟨0⟩ 0)),
    .operate (.dropTable 0), .operate (.pointerOf 0 (.ofNat 1))]
  have hpermitted : Permits ⟨heap, []⟩ script := by decide +kernel
  exact ⟨heap, script, hheap, hpermitted, agree_under_collections hheap script hpermitted⟩

end Host

end KnownObjects
