import KnownObjects.Compilation
import KnownObjects.Proofs.Table.Uses
import KnownObjects.Proofs.Transparency

/-!
# What happens at a host

Tables come and go over one heap while mutators work on it. An `Event` is one step of any of them: an operation on the heap, the creation of a table, a use of one, which may name an address, and the end of one, because it is dropped or because the compilation that owns it aborts. That a compilation is running shows in nothing else. Its pass is a row of events, with events of others in between, so compilations may be nested in one another or overlap in any way, and each may abort after any of its steps.

To the heap every event is one `Heap.Change`.
-/

namespace KnownObjects.Host

inductive Event where
  | heap (operation : Heap.Operation)
  | createTable
  | use (k : Nat) (operation : Site.Operation)
  | dropTable (k : Nat)
  | abort (k id : Nat) (cause : Fatal)
deriving DecidableEq

/-- Ends a table, which gives back its handles. -/
def discard {ε : Type} (k : Nat) : Action ε Host Unit := do
  match (← get).table? k with
  | some table =>
    Site.dropTable.focus (fun s => ⟨s.heap, table⟩) fun site s => { heap := site.heap, tables := s.tables.set k none }
  | none => return ()

def endIndex (k : Nat) (s : Host) : Index := ((s.table? k).map Table.endIndex).getD .null

/-- A compilation that owns a table of the host. -/
def compile {ε α : Type} (k id : Nat) (role : Role) (pass : Action Fatal Host α) :
    Action ε Host (Except Compilation.Aborted α) :=
  Compilation.run id role (endIndex k) (discard k) pass

/-- The end of a compilation whose pass was given up. -/
def conclude {ε : Type} (k id : Nat) (cause : Fatal) : Action ε Host (Except Compilation.Aborted Unit) :=
  Compilation.conclude id (endIndex k) (discard k) (.error cause)

def after (s : Host) : Event → Host
  | .heap operation => (s.onHeap operation).2
  | .createTable => (s.perform .createTable).2
  | .use k operation => (s.atTable k operation).2
  | .dropTable k => (s.perform (.dropTable k)).2
  | .abort k id cause => ((conclude k id cause : Action Fatal Host _).run s).state

def handlesOf (s : Host) (k : Nat) : List Handle := ((s.table? k).map fun table => table.slots.handles).getD []

/-- The handles that an event gives back. -/
def Event.released (s : Host) : Event → List Handle
  | .heap operation => operation.released
  | .createTable => []
  | .use k operation => if (s.table? k).isSome then operation.released else []
  | .dropTable k => s.handlesOf k
  | .abort k _ _ => s.handlesOf k

theorem set_table {s : Host} {k : Nat} {table : Table} (h : s.table? k = some table) :
    s.tables.set k (some table) = s.tables := by
  obtain ⟨hlt, hget⟩ := List.getElem?_eq_some_iff.1 (Option.join_eq_some_iff.1 h)
  rw [← hget, List.set_getElem_self hlt]

theorem table?_set_ne {j k : Nat} (hne : j ≠ k) (heap : Heap) (tables : List (Option Table)) (entry : Option Table) :
    Host.table? ⟨heap, tables.set j entry⟩ k = Host.table? ⟨heap, tables⟩ k := by
  simp only [table?]
  rw [List.getElem?_set_ne hne]

theorem table?_set_self {k : Nat} {heap : Heap} {tables : List (Option Table)} {entry : Option Table} {table : Table}
    (h : Host.table? ⟨heap, tables.set k entry⟩ k = some table) : entry = some table := by
  simp only [table?] at h
  rw [List.getElem?_set_self'] at h
  cases hold : tables[k]? with
  | none => simp [hold] at h
  | some old => simpa [hold] using h

/-! ### The end of a table -/

theorem discard_ends {ε : Type} (k : Nat) (s : Host) :
    (discard k : Action ε Host Unit).Ends s (.ok ()) (s.perform (.dropTable k)).2 := by
  apply (Action.get_ends s).bind
  simp only [perform_dropTable]
  cases s.table? k with
  | none => exact Action.pure_ends () s
  | some table => exact ⟨rfl, rfl⟩

theorem conclude_ends {ε : Type} (k id : Nat) (cause : Fatal) (s : Host) :
    (conclude k id cause : Action ε Host _).Ends s (.ok (.error ⟨id, cause⟩)) (s.perform (.dropTable k)).2 :=
  (Action.note_ends _ _ s).bind ((discard_ends k s).bind (Action.pure_ends _ _))

@[simp] theorem after_abort (s : Host) (k id : Nat) (cause : Fatal) : s.after (.abort k id cause) = s.after (.dropTable k) :=
  (conclude_ends k id cause s).2

theorem after_dropTable {s : Host} {k : Nat} {table : Table} (h : s.table? k = some table) :
    s.after (.dropTable k) = ⟨(s.heap.release table.slots.handles).2, s.tables.set k none⟩ := by
  simp only [after, perform, h]
  rfl

theorem after_dropTable_of_absent {s : Host} {k : Nat} (h : s.table? k = none) : s.after (.dropTable k) = s := by
  simp only [after, perform, h]

theorem after_use {s : Host} {k : Nat} {table : Table} (h : s.table? k = some table) (operation : Site.Operation) :
    s.after (.use k operation) =
      ⟨(operation.next ⟨s.heap, table⟩).heap, s.tables.set k (some (operation.next ⟨s.heap, table⟩).table)⟩ := by
  simp only [after, atTable, h]
  rfl

theorem after_use_of_absent {s : Host} {k : Nat} (h : s.table? k = none) (operation : Site.Operation) :
    s.after (.use k operation) = s := by
  simp only [after, atTable, h]

/-- A compilation whose pass is given up does nothing more than to drop its table. -/
theorem compile_ends_of_error {ε α : Type} {k id : Nat} {role : Role} {pass : Action Fatal Host α} {s t : Host}
    {cause : Fatal} (hpass : pass.Ends s (.error cause) t) :
    (compile k id role pass : Action ε Host _).Ends s (.ok (.error ⟨id, cause⟩)) (t.after (.abort k id cause)) := by
  rw [after_abort]
  refine (Action.note_ends _ _ s).bind (hpass.attempt.bind ?_)
  exact (Action.note_ends _ _ t).bind ((discard_ends k t).bind (Action.pure_ends _ _))

/-! ### What an event does to the heap -/

theorem dropTable_change (s : Host) (k : Nat) :
    Heap.Change s.heap (s.handlesOf k) (s.after (.dropTable k)).heap := by
  simp only [handlesOf]
  cases h : s.table? k with
  | none =>
    rw [after_dropTable_of_absent h]
    exact .none
  | some table =>
    rw [after_dropTable h]
    exact .released table.slots.handles

theorem use_change (s : Host) (k : Nat) (operation : Site.Operation) :
    Heap.Change s.heap ((Event.use k operation).released s) (s.after (.use k operation)).heap := by
  simp only [Event.released]
  cases h : s.table? k with
  | none =>
    rw [after_use_of_absent h]
    exact .none
  | some table =>
    rw [after_use h]
    by_cases huse : ∀ heapOperation, operation ≠ .heap heapOperation
    · have hreleased : operation.released = [] := by
        cases operation with
        | heap heapOperation => exact absurd rfl (huse heapOperation)
        | table | indexOf | existingIndexOf | pointerOf | serve => rfl
      rw [Option.isSome_some, if_pos rfl, hreleased]
      exact (Site.used_perform huse ⟨s.heap, table⟩).change
    · push Not at huse
      obtain ⟨heapOperation, rfl⟩ := huse
      exact Heap.perform_change s.heap heapOperation

theorem after_change (s : Host) (e : Event) : Heap.Change s.heap (e.released s) (s.after e).heap := by
  cases e with
  | heap operation => exact Heap.perform_change s.heap operation
  | createTable => exact .none
  | use k operation => exact use_change s k operation
  | dropTable k => exact dropTable_change s k
  | abort k id cause =>
    rw [after_abort]
    exact dropTable_change s k

end KnownObjects.Host
