import KnownObjects.Proofs.Dump.Promotion

/-!
# In which order the trees come

A row of roots gives a tree to those of its indices that no tree before has seen, so the lines that are not indented are a part of the row, in its order. The forest through final fields has two rows. The first has the indices without a mark, each of which gets its tree. The second has all indices, and those of them get a tree that no index without a mark leads to, nor any that is lower.

Both rows are in index order, so this settles which lines are not indented and where each one stands among them.
-/

namespace KnownObjects

open Dump Dump.Graph Relation

namespace Dump

namespace Graph

variable {g : Graph} {mutable : Bool} {seen : IndexSet}

section

variable (hsize : g.nodes.length < 4294967295)

include hsize

end

end Graph

end Dump

namespace Site

/-- Some known object refers to the index through a final field. -/
def Marked (s : Site) (i : Index) : Prop := ∃ j, s.Refers j i

variable {s : Site} {objects : List Object}

namespace Shows

end Shows

end Site

end KnownObjects
