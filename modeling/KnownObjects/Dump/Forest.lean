import KnownObjects.Dump.Graph
import KnownObjects.Dump.Listing

/-!
# The graph as a forest

The graph is printed as trees, each known object expanded once. A tree is walked with a stack of pending visits: a visit to an index that was seen before gives a bare reference, any other gives the object's line and pends visits to its children on top of the stack. The walk ends because every expansion leaves one index less to be seen.

The trees start at the objects that no other known object refers to through a final field. What is left after them lies on cycles of final references, or hangs off one, and is then walked in index order.
-/

namespace KnownObjects.Dump

/-- A line to be printed: how far it is indented, what stands before the object, and which object. -/
structure Visit where
  depth : Nat
  label : String
  index : Index
deriving DecidableEq

inductive Line where
  | expanded (visit : Visit) (node : Node)
  | reference (visit : Visit)
deriving DecidableEq

namespace Visit

def root (i : Index) : Visit := ⟨0, "", i⟩

def text (v : Visit) : String := Text.blanks (2 * v.depth) ++ v.label ++ "obj" ++ v.index.text

end Visit

namespace Line

def visit : Line → Visit
  | expanded v _ => v
  | reference v => v

/-- The field's name and its number, after two blanks. -/
private def numberText (entry : String × Int32) : String :=
  "  " ++ entry.1 ++ ": " ++ toString entry.2.toInt

def text : Line → String
  | reference v => v.text ++ "\n"
  | expanded v n =>
    v.text ++ " @ " ++ n.address.text ++ " hash " ++ hashText n.hash ++ " " ++ n.className ++
      String.join (n.numbers.map numberText) ++ "\n"

end Line

/-- The visits to the children of a node. Mutable fields count only if asked for. -/
def Node.children (n : Node) (mutable : Bool) (depth : Nat) : List Visit :=
  (n.edges.filter fun e => e.isFinal || mutable).map fun e =>
    ⟨depth, e.field ++ (if e.isFinal then " is " else " = "), e.target⟩

namespace Graph

/-- How many indices are still to be seen. -/
def unseen (g : Graph) (seen : IndexSet) : Nat := g.indices.countP fun i => !seen.contains i

private theorem countP_lt_of_mem {α : Type} {p q : α → Bool} {l : List α} {x : α}
    (himp : ∀ y, q y = true → p y = true) (hmem : x ∈ l) (hp : p x = true) (hq : q x = false) :
    l.countP q < l.countP p := by
  induction l with
  | nil => simp at hmem
  | cons y l ih =>
    have hle : l.countP q ≤ l.countP p := List.countP_mono_left fun z _ => himp z
    rcases List.mem_cons.1 hmem with rfl | hmem
    · rw [List.countP_cons_of_pos hp, List.countP_cons_of_neg (by simp [hq])]
      omega
    · have hlt := ih hmem
      by_cases hqy : q y = true
      · rw [List.countP_cons_of_pos hqy, List.countP_cons_of_pos (himp y hqy)]
        omega
      · rw [List.countP_cons_of_neg hqy, List.countP_cons]
        omega

/-- Seeing one of some indices leaves fewer of them to be seen. -/
theorem countP_insert_lt {l : List Index} {seen : IndexSet} {i : Index} (hmem : i ∈ l)
    (hnew : seen.contains i = false) :
    (l.countP fun j => !(seen.insert i).2.contains j) < l.countP fun j => !seen.contains j := by
  refine countP_lt_of_mem ?_ hmem ?_ ?_
  · intro j
    simp
  · simp [hnew]
  · simp

theorem unseen_insert_lt {g : Graph} {seen : IndexSet} {i : Index} {n : Node}
    (hnode : g.node? i = some n) (hnew : seen.contains i = false) :
    g.unseen (seen.insert i).2 < g.unseen seen := countP_insert_lt (mem_indices_of_node? hnode) hnew

/-- Walks the pending visits, and returns the lines with the set of all indices seen. -/
def walk (g : Graph) (mutable : Bool) : List Visit → IndexSet → List Line × IndexSet
  | [], seen => ([], seen)
  | v :: pending, seen =>
    if _hseen : seen.contains v.index then
      let rest := walk g mutable pending seen
      (.reference v :: rest.1, rest.2)
    else
      match _hnode : g.node? v.index with
      | none => walk g mutable pending seen
      | some n =>
        let rest := walk g mutable (n.children mutable (v.depth + 1) ++ pending) (seen.insert v.index).2
        (.expanded v n :: rest.1, rest.2)
termination_by pending seen => (g.unseen seen, pending.length)
decreasing_by
  · exact Prod.Lex.right _ (Nat.lt_succ_self _)
  · exact Prod.Lex.right _ (Nat.lt_succ_self _)
  · exact Prod.Lex.left _ _ (unseen_insert_lt _hnode (Bool.eq_false_iff.2 _hseen))

/-- Walks a tree from each of some roots that was not seen before its turn. -/
def trees (g : Graph) (mutable : Bool) : List Index → IndexSet → List Line × IndexSet
  | [], seen => ([], seen)
  | i :: rest, seen =>
    if seen.contains i then trees g mutable rest seen
    else
      let tree := g.walk mutable [.root i] seen
      let others := trees g mutable rest tree.2
      (tree.1 ++ others.1, others.2)

/-- All lines of the forest: first the trees of the objects without a mark, then those of what is left. -/
def forest (g : Graph) (mutable : Bool) (bound : Index) : List Line :=
  let marked := g.marked bound
  let first := g.trees mutable (g.indices.filter fun i => !marked.contains i) (.withCapacity bound)
  first.1 ++ (g.trees mutable g.indices first.2).1

end Graph

end KnownObjects.Dump
