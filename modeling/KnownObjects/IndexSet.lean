import KnownObjects.Index

/-!
# Sets of indices

A growable set of indices, kept as a row of 64-bit words with one bit for each index. It serves for the tags of a table and for the marks of a graph dump. Two sets are equal when their words are: a set that was given room for more indices differs from one that was not, whatever their members.

The bit of an index is reached through `contains` alone. The last lemmas say what an insertion does to the members, which is all that the rest of the library relies on.
-/

namespace KnownObjects

structure IndexSet where
  words : Array UInt64
deriving DecidableEq

namespace IndexSet

def empty : IndexSet := ⟨#[]⟩

/-- An empty set with room for all indices below `bound`. -/
def withCapacity (bound : Index) : IndexSet := ⟨Array.replicate ((bound.toNat + 63) / 64) 0⟩

def wordOf (i : Index) : Nat := i.toNat / 64

def bitOf (i : Index) : Nat := i.toNat % 64

def mask (i : Index) : UInt64 := 1 <<< UInt64.ofNat (bitOf i)

def contains (s : IndexSet) (i : Index) : Bool :=
  match s.words[wordOf i]? with
  | some word => word.toBitVec.getLsbD (bitOf i)
  | none => false

/-- Appends zero words until there are at least `count`. -/
def grow (words : Array UInt64) (count : Nat) : Array UInt64 :=
  words ++ Array.replicate (count - words.size) 0

/-- Adds an index, and tells whether it is new to the set. -/
def insert (s : IndexSet) (i : Index) : Bool × IndexSet :=
  (!s.contains i,
    ⟨(grow s.words (wordOf i + 1)).modify (wordOf i) (· ||| mask i)⟩)

def bitCount (word : UInt64) : Nat := (List.range 64).countP word.toBitVec.getLsbD

def size (s : IndexSet) : Nat := s.words.foldl (fun n word => n + bitCount word) 0

instance : Membership Index IndexSet := ⟨fun s i => s.contains i = true⟩

instance (s : IndexSet) (i : Index) : Decidable (i ∈ s) :=
  inferInstanceAs (Decidable (s.contains i = true))

theorem mem_iff {s : IndexSet} {i : Index} : i ∈ s ↔ s.contains i = true := Iff.rfl

theorem bitOf_lt (i : Index) : bitOf i < 64 := Nat.mod_lt _ (by decide)

theorem getLsbD_mask {i : Index} {k : Nat} (hk : k < 64) :
    (mask i).toBitVec.getLsbD k = decide (k = bitOf i) := by
  have hbit := bitOf_lt i
  have hshift : (UInt64.ofNat (bitOf i)).toBitVec % 64 = BitVec.ofNat 64 (bitOf i) := by
    apply BitVec.eq_of_toNat_eq
    simp
    omega
  unfold mask
  rw [UInt64.toBitVec_shiftLeft, hshift]
  simp only [BitVec.shiftLeft_eq', BitVec.toNat_ofNat, BitVec.getLsbD_shiftLeft]
  rw [Nat.mod_eq_of_lt (by omega : bitOf i < 18446744073709551616), show (1 : UInt64).toBitVec = 1#64 from rfl]
  simp only [hk, decide_true, Bool.true_and, BitVec.getLsbD_one]
  by_cases h : k = bitOf i
  · simp [h]
  · simp [h]
    omega

theorem getElem?_grow (words : Array UInt64) (count k : Nat) :
    (grow words count)[k]? =
      if k < words.size then words[k]? else if k < count then some 0 else none := by
  unfold grow
  rw [Array.getElem?_append]
  by_cases hold : k < words.size
  · simp [hold]
  · simp only [hold, if_false, Array.getElem?_replicate]
    by_cases hnew : k < count
    · simp [hnew]
      omega
    · simp [hnew]
      omega

private theorem eq_iff_bitOf_eq {i j : Index} (hword : wordOf i = wordOf j) :
    j = i ↔ bitOf j = bitOf i := by
  refine ⟨fun h => h ▸ rfl, fun hbit => Index.ext_toNat ?_⟩
  have hi := Nat.div_add_mod i.toNat 64
  have hj := Nat.div_add_mod j.toNat 64
  unfold wordOf at hword
  unfold bitOf at hbit
  omega

private theorem getLsbD_or_mask {i j : Index} (hword : wordOf i = wordOf j) (word : UInt64) :
    (word ||| mask i).toBitVec.getLsbD (bitOf j) =
      (decide (j = i) || word.toBitVec.getLsbD (bitOf j)) := by
  rw [UInt64.toBitVec_or, BitVec.getLsbD_or, getLsbD_mask (bitOf_lt j), Bool.or_comm]
  simp [eq_iff_bitOf_eq hword]

@[simp] theorem contains_empty (i : Index) : empty.contains i = false := by
  simp [contains, empty]

@[simp] theorem contains_withCapacity (bound i : Index) : (withCapacity bound).contains i = false := by
  unfold contains withCapacity
  by_cases h : wordOf i < (bound.toNat + 63) / 64
  · simp [h]
  · simp [h]

@[simp] theorem contains_insert (s : IndexSet) (i j : Index) :
    (s.insert i).2.contains j = (decide (j = i) || s.contains j) := by
  unfold insert contains
  simp only [Array.getElem?_modify, getElem?_grow]
  by_cases hword : wordOf i = wordOf j
  · have hbit := getLsbD_or_mask hword
    by_cases hold : wordOf j < s.words.size
    · simp [hword, hold, -UInt64.toBitVec_or, hbit]
    · simp [hword, hold, getLsbD_mask (bitOf_lt j), eq_iff_bitOf_eq hword]
  · have hne : j ≠ i := by
      rintro rfl
      exact hword rfl
    by_cases hold : wordOf j < s.words.size
    · simp [hword, hold, hne]
    · by_cases hnew : wordOf j < wordOf i + 1
      · simp [hword, hold, hnew, hne]
      · simp [hword, hold, hnew, hne]

end IndexSet

end KnownObjects
