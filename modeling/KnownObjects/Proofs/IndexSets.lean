import KnownObjects.IndexSet
import Mathlib.Algebra.BigOperators.Group.List.Lemmas
import Mathlib.Algebra.Order.Floor.Div
import Mathlib.Data.Finset.Card
import Mathlib.Data.Finset.Lattice.Fold
import Mathlib.Data.List.Forall2
import Mathlib.Order.Lattice.Nat

/-!
# Families of sets

A set of indices is a finite set together with the room that was reserved for it, and `Contents` is just that. Sets begin empty, may be copied, and grow by one index at a time; `Growable` names what this takes, so that a family of sets of words and the family of what they stand for can go through the same operations. `Represents` relates the two and is kept by each operation.

The number of words is no more than a trace of the room and of the largest member. It is all that can tell apart two sets with the same members, because every bit of every word belongs to some index.
-/

namespace KnownObjects

/-- What it takes to be grown from nothing by insertions. -/
class Growable (σ : Type) where
  empty : σ
  /-- Reserves room for the indices below a bound. -/
  withCapacity : Index → σ
  /-- Adds an index, and tells whether it is new. -/
  insert : σ → Index → Bool × σ

instance : Growable IndexSet where
  empty := IndexSet.empty
  withCapacity := IndexSet.withCapacity
  insert := IndexSet.insert

/-- What a set stands for. -/
structure Contents where
  room : Index
  members : Finset Index

namespace Contents

instance : Growable Contents where
  empty := ⟨.null, ∅⟩
  withCapacity bound := ⟨bound, ∅⟩
  insert c i := (decide (i ∉ c.members), { c with members := insert i c.members })

/-- The number of words of a set that stands for these contents. -/
def wordCount (c : Contents) : Nat :=
  max (c.room.toNat ⌈/⌉ 64) (if c.members = ∅ then 0 else c.members.sup Index.toNat / 64 + 1)

theorem wordCount_insert (c : Contents) (i : Index) :
    wordCount { c with members := insert i c.members } = max c.wordCount (i.toNat / 64 + 1) := by
  unfold wordCount
  by_cases hempty : c.members = ∅
  · simp [hempty]
  · have hlargest : (insert i c.members).sup Index.toNat = max i.toNat (c.members.sup Index.toNat) := Finset.sup_insert
    rw [if_neg (Finset.insert_ne_empty i c.members), if_neg hempty, hlargest]
    dsimp only
    omega

theorem wordCount_le (c : Contents) : c.wordCount ≤ 67108864 := by
  have hroom := c.room.toNat_lt
  have hlargest : c.members.sup Index.toNat ≤ 4294967295 :=
    Finset.sup_le fun i _ => Nat.le_of_lt_succ i.toNat_lt
  unfold wordCount
  rw [Nat.ceilDiv_eq_add_pred_div]
  split <;> omega

end Contents

namespace IndexSet

/-! ### The number of words -/

theorem size_words_insert (s : IndexSet) (i : Index) :
    (s.insert i).2.words.size = max s.words.size (wordOf i + 1) := by
  simp only [insert, grow, Array.size_modify, Array.size_append, Array.size_replicate]
  omega

/-! ### The number of members -/

/-- One more number is counted if it was not among those counted before. -/
theorem countP_or {l : List Nat} (hnodup : l.Nodup) {b : Nat} (hb : b ∈ l) (p : Nat → Bool) :
    l.countP (fun k => decide (k = b) || p k) = l.countP p + if p b then 0 else 1 := by
  induction l with
  | nil => simp at hb
  | cons k l ih =>
    rw [List.nodup_cons] at hnodup
    rw [List.countP_cons, List.countP_cons]
    by_cases hk : k = b
    · subst hk
      have hrest : l.countP (fun j => decide (j = k) || p j) = l.countP p := by
        apply List.countP_congr
        intro j hj
        have hne : j ≠ k := fun h => hnodup.1 (h ▸ hj)
        simp [hne]
      rw [hrest]
      cases p k <;> simp
    · have hrest := ih hnodup.2 ((List.mem_cons.1 hb).resolve_left (Ne.symm hk))
      rw [hrest]
      simp only [hk, decide_false, Bool.false_or]
      omega

theorem bitCount_or_mask (word : UInt64) (i : Index) :
    bitCount (word ||| mask i) = bitCount word + if word.toBitVec.getLsbD (bitOf i) then 0 else 1 := by
  have hbits : ∀ k ∈ List.range 64, (word ||| mask i).toBitVec.getLsbD k = true ↔
      (decide (k = bitOf i) || word.toBitVec.getLsbD k) = true := by
    intro k hk
    rw [UInt64.toBitVec_or, BitVec.getLsbD_or, getLsbD_mask (List.mem_range.1 hk), Bool.or_comm]
  unfold bitCount
  rw [List.countP_congr hbits]
  exact countP_or List.nodup_range (List.mem_range.2 (bitOf_lt i)) _

theorem size_eq_sum (s : IndexSet) : s.size = (s.words.toList.map bitCount).sum := by
  have hfold : ∀ (words : List UInt64) (n : Nat),
      words.foldl (fun n word => n + bitCount word) n = n + (words.map bitCount).sum := by
    intro words
    induction words with
    | nil => simp
    | cons word words ih =>
      intro n
      rw [List.foldl_cons, ih, List.map_cons, List.sum_cons, Nat.add_assoc]
  unfold size
  rw [← Array.foldl_toList, hfold, Nat.zero_add]

theorem bitCount_zero : bitCount 0 = 0 := by decide

theorem sum_modify (words : List UInt64) {k : Nat} (hk : k < words.length) (f : UInt64 → UInt64) :
    ((words.modify k f).map bitCount).sum + bitCount words[k] = (words.map bitCount).sum + bitCount (f words[k]) := by
  induction words generalizing k with
  | nil => simp at hk
  | cons word words ih =>
    cases k with
    | zero =>
      simp only [List.modify_zero_cons, List.map_cons, List.sum_cons, List.getElem_cons_zero]
      omega
    | succ k =>
      have hrest := ih (Nat.lt_of_succ_lt_succ hk)
      simp only [List.modify_succ_cons, List.map_cons, List.sum_cons, List.getElem_cons_succ]
      omega

/-- An insertion counts if the index is new. -/
theorem size_insert (s : IndexSet) (i : Index) :
    (s.insert i).2.size = s.size + if s.contains i then 0 else 1 := by
  have hlt : wordOf i < (grow s.words (wordOf i + 1)).toList.length := by
    simp only [grow, Array.length_toList, Array.size_append, Array.size_replicate]
    omega
  have hsum := sum_modify _ hlt (· ||| mask i)
  rw [bitCount_or_mask, ← Array.toList_modify] at hsum
  -- Growth adds no member, so the grown row counts as many and has the same bit.
  have hsize : s.size = ((grow s.words (wordOf i + 1)).toList.map bitCount).sum := by
    rw [size_eq_sum]
    simp [grow, bitCount_zero]
  have hbit : s.contains i = (grow s.words (wordOf i + 1)).toList[wordOf i].toBitVec.getLsbD (bitOf i) := by
    have hword := getElem?_grow s.words (wordOf i + 1) (wordOf i)
    rw [← Array.getElem?_toList, List.getElem?_eq_getElem hlt] at hword
    unfold contains
    split at hword
    · rw [← hword]
    · rename_i hnew
      rw [if_pos (Nat.lt_succ_self _)] at hword
      rw [Array.getElem?_eq_none (Nat.le_of_not_lt hnew), Option.some.inj hword]
      simp
  rw [size_eq_sum, hsize, hbit]
  simp only [insert]
  omega

/-! ### What a set stands for -/

structure Represents (s : IndexSet) (c : Contents) : Prop where
  contains : ∀ i, s.contains i = true ↔ i ∈ c.members
  size : s.size = c.members.card
  words : s.words.size = c.wordCount

theorem empty_represents : Represents Growable.empty Growable.empty where
  contains i := by simp [Growable.empty]
  size := rfl
  words := by simp [Growable.empty, empty, Contents.wordCount, Index.null, Index.toNat]

theorem withCapacity_represents (bound : Index) :
    Represents (Growable.withCapacity bound) (Growable.withCapacity bound) where
  contains i := by simp [Growable.withCapacity]
  size := by
    rw [size_eq_sum]
    simp [Growable.withCapacity, withCapacity, bitCount_zero]
  words := by
    simp only [Growable.withCapacity, withCapacity, Contents.wordCount, Array.size_replicate, if_true]
    rw [Nat.ceilDiv_eq_add_pred_div]
    omega

namespace Represents

variable {s t : IndexSet} {c d : Contents}

theorem insert_fst (h : Represents s c) (i : Index) : (Growable.insert s i).1 = (Growable.insert c i).1 := by
  have hmem := h.contains i
  simp only [Growable.insert, IndexSet.insert]
  cases hcontains : s.contains i <;> simp_all

theorem insert_snd (h : Represents s c) (i : Index) :
    Represents (Growable.insert s i).2 (Growable.insert c i).2 where
  contains j := by
    simp [Growable.insert, h.contains j]
  size := by
    have hmem := h.contains i
    have hsize := size_insert s i
    simp only [Growable.insert]
    by_cases hi : i ∈ c.members
    · rw [hsize, if_pos (hmem.2 hi), h.size, Finset.insert_eq_self.2 hi, Nat.add_zero]
    · rw [hsize, if_neg (mt hmem.1 hi), h.size, Finset.card_insert_of_notMem hi]
  words := by
    simp only [Growable.insert]
    rw [size_words_insert, Contents.wordCount_insert, h.words]
    rfl

/-- Every bit of a word belongs to an index, since no set has more words than there are indices for. -/
theorem eq_of_contains (h : Represents s c) (hwords : s.words.size = t.words.size)
    (hcontains : ∀ i, s.contains i = t.contains i) : s = t := by
  have hbound := h.words ▸ c.wordCount_le
  have hsame : s.words = t.words := by
    apply Array.ext hwords
    intro k hk hk'
    apply UInt64.toBitVec_inj.1
    apply BitVec.eq_of_getLsbD_eq
    intro b hb
    have hnat : (Index.ofNat (64 * k + b)).toNat = 64 * k + b := Index.toNat_ofNat (by omega)
    have hword : wordOf (Index.ofNat (64 * k + b)) = k := by
      simp only [wordOf, hnat]
      omega
    have hbit : bitOf (Index.ofNat (64 * k + b)) = b := by
      simp only [bitOf, hnat]
      omega
    have hsame := hcontains (Index.ofNat (64 * k + b))
    simp only [IndexSet.contains, hword, hbit, Array.getElem?_eq_getElem hk, Array.getElem?_eq_getElem hk'] at hsame
    exact hsame
  exact congrArg IndexSet.mk hsame

/-- Sets are told apart by their members and by their number of words, and by nothing else. -/
theorem eq_iff (hs : Represents s c) (ht : Represents t d) :
    s = t ↔ c.members = d.members ∧ c.wordCount = d.wordCount := by
  constructor
  · intro h
    subst h
    refine ⟨?_, hs.words.symm.trans ht.words⟩
    ext i
    rw [← hs.contains, ht.contains]
  · intro h
    apply hs.eq_of_contains (hs.words.trans (h.2.trans ht.words.symm))
    intro i
    rw [Bool.eq_iff_iff, hs.contains, ht.contains, h.1]

end Represents

end IndexSet

/-! ### Families -/

namespace Family

inductive Operation where
  | create
  | createWithin (bound : Index)
  | clone (k : Nat)
  | insert (k : Nat) (i : Index)
deriving DecidableEq

variable {σ : Type} [Growable σ]

/-- What an operation answers, and the family that it leaves. New members are put at its end. -/
def perform (family : List σ) : Operation → Option Bool × List σ
  | .create => (none, family ++ [Growable.empty])
  | .createWithin bound => (none, family ++ [Growable.withCapacity bound])
  | .clone k => (none, family ++ family[k]?.toList)
  | .insert k i =>
    match family[k]? with
    | some s => (some (Growable.insert s i).1, family.set k (Growable.insert s i).2)
    | none => (none, family)

def performAll (family : List σ) : List Operation → List (Option Bool) × List σ
  | [] => ([], family)
  | operation :: rest =>
    let others := performAll (perform family operation).2 rest
    ((perform family operation).1 :: others.1, others.2)

open IndexSet (Represents)

section

variable {α β : Type} {R : α → β → Prop} {l : List α} {m : List β}

theorem getElem?_of_forall₂ (h : List.Forall₂ R l m) (k : Nat) :
    (l[k]? = none ∧ m[k]? = none) ∨ ∃ x y, l[k]? = some x ∧ m[k]? = some y ∧ R x y := by
  induction h generalizing k with
  | nil => simp
  | @cons x y l m hxy h ih =>
    cases k with
    | zero => exact Or.inr ⟨x, y, rfl, rfl, hxy⟩
    | succ k => exact ih k

theorem forall₂_set (h : List.Forall₂ R l m) (k : Nat) {x : α} {y : β} (hxy : R x y) :
    List.Forall₂ R (l.set k x) (m.set k y) := by
  induction h generalizing k with
  | nil => exact .nil
  | cons hfirst h ih =>
    cases k with
    | zero => exact .cons hxy h
    | succ k => exact .cons hfirst (ih k)

end

variable {sets : List IndexSet} {contents : List Contents}

theorem perform_represents (h : List.Forall₂ Represents sets contents) (operation : Operation) :
    (perform sets operation).1 = (perform contents operation).1 ∧
      List.Forall₂ Represents (perform sets operation).2 (perform contents operation).2 := by
  cases operation with
  | create => exact ⟨rfl, List.rel_append h (.cons IndexSet.empty_represents .nil)⟩
  | createWithin bound => exact ⟨rfl, List.rel_append h (.cons (IndexSet.withCapacity_represents bound) .nil)⟩
  | clone k =>
    simp only [perform]
    obtain ⟨hnone, hnone'⟩ | ⟨s, c, hs, hc, hsc⟩ := getElem?_of_forall₂ h k
    · rw [hnone, hnone']
      exact ⟨trivial, List.rel_append h .nil⟩
    · rw [hs, hc]
      exact ⟨trivial, List.rel_append h (.cons hsc .nil)⟩
  | insert k i =>
    simp only [perform]
    obtain ⟨hnone, hnone'⟩ | ⟨s, c, hs, hc, hsc⟩ := getElem?_of_forall₂ h k
    · rw [hnone, hnone']
      exact ⟨rfl, h⟩
    · rw [hs, hc]
      exact ⟨congrArg some (hsc.insert_fst i), forall₂_set h k (hsc.insert_snd i)⟩

theorem performAll_represents (h : List.Forall₂ Represents sets contents) (script : List Operation) :
    (performAll sets script).1 = (performAll contents script).1 ∧
      List.Forall₂ Represents (performAll sets script).2 (performAll contents script).2 := by
  induction script generalizing sets contents with
  | nil => exact ⟨rfl, h⟩
  | cons operation rest ih =>
    obtain ⟨hanswer, hnext⟩ := perform_represents h operation
    obtain ⟨hanswers, hend⟩ := ih hnext
    refine ⟨?_, hend⟩
    simp only [performAll]
    rw [hanswer, hanswers]

/-- Of all members of all sets, an insertion changes at most the one that it names. -/
theorem exists_perform_insert {l : Nat} {s : IndexSet} (hs : sets[l]? = some s) (k : Nat) (i : Index) :
    ∃ t, (perform sets (.insert k i)).2[l]? = some t ∧ ∀ j, ¬(l = k ∧ j = i) → t.contains j = s.contains j := by
  simp only [perform]
  by_cases hl : l = k
  · subst hl
    rw [hs]
    refine ⟨_, List.getElem?_set_self (List.getElem?_eq_some_iff.1 hs).1, ?_⟩
    intro j hj
    have hne : j ≠ i := fun h => hj ⟨rfl, h⟩
    simp [Growable.insert, hne]
  · cases hk : sets[k]? with
    | none => exact ⟨s, hs, fun j _ => rfl⟩
    | some r => exact ⟨s, by rw [List.getElem?_set_ne (Ne.symm hl), hs], fun j _ => rfl⟩

/-- A family of sets stands for a family of contents. -/
structure Refines (sets : List IndexSet) (contents : List Contents) : Prop where
  represents : List.Forall₂ Represents sets contents
  equal : ∀ (k l : Nat) (s t : IndexSet) (c d : Contents), sets[k]? = some s → contents[k]? = some c →
    sets[l]? = some t → contents[l]? = some d → (s = t ↔ c.members = d.members ∧ c.wordCount = d.wordCount)
  /-- An insertion tells whether the index was absent. -/
  fresh : ∀ (k : Nat) (c : Contents) (i : Index), contents[k]? = some c →
    (perform sets (.insert k i)).1 = some (decide (i ∉ c.members))
  apart : ∀ (k : Nat) (i : Index) (l : Nat) (s : IndexSet), sets[l]? = some s →
    ∃ t, (perform sets (.insert k i)).2[l]? = some t ∧ ∀ j, ¬(l = k ∧ j = i) → t.contains j = s.contains j

theorem refines_of_forall₂ (h : List.Forall₂ Represents sets contents) : Refines sets contents where
  represents := h
  equal := by
    intro k l s t c d hs hc ht hd
    have hrelated : ∀ (n : Nat) (s : IndexSet) (c : Contents), sets[n]? = some s → contents[n]? = some c →
        Represents s c := by
      intro n s c hs hc
      obtain ⟨hnone, -⟩ | ⟨s', c', hs', hc', hsc⟩ := getElem?_of_forall₂ h n
      · simp [hnone] at hs
      · obtain rfl := Option.some.inj (hs.symm.trans hs')
        obtain rfl := Option.some.inj (hc.symm.trans hc')
        exact hsc
    exact (hrelated k s c hs hc).eq_iff (hrelated l t d ht hd)
  fresh := by
    intro k c i hc
    have hanswer := (perform_represents h (.insert k i)).1
    rw [hanswer]
    simp only [perform, hc]
    rfl
  apart := fun k i l s hs => exists_perform_insert hs k i

/-- However sets are begun, copied and filled, they give the answers of finite sets, and stand for them. -/
theorem performAll_refines (script : List Operation) :
    (performAll ([] : List IndexSet) script).1 = (performAll ([] : List Contents) script).1 ∧
      Refines (performAll [] script).2 (performAll [] script).2 := by
  obtain ⟨hanswers, hfamily⟩ := performAll_represents .nil script
  exact ⟨hanswers, refines_of_forall₂ hfamily⟩

/-- The same member in two sets of which one was given more room, and in a copy that then gets another one. -/
example :
    let script : List Operation := [.createWithin (.ofNat 65), .create, .insert 0 (.ofNat 3), .insert 1 (.ofNat 3),
      .clone 1, .insert 2 (.ofNat 64), .insert 2 (.ofNat 64)]
    (performAll ([] : List IndexSet) script) =
      ([none, none, some true, some true, none, some true, some false], [⟨#[8, 0]⟩, ⟨#[8]⟩, ⟨#[8, 1]⟩]) := by
  decide

end Family

end KnownObjects
