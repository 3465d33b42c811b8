import KnownObjects.Heap.Basic
import Mathlib.Algebra.BigOperators.Ring.Finset
import Mathlib.Algebra.Group.Hom.End
import Mathlib.Data.Nat.Bitwise

/-!
# The generator of hashes as a linear map

Words with exclusive or form a group in which every word is its own inverse, and a shift is an endomorphism of it. The endomorphisms form a ring, in which one step of the generator is a product of three factors.

The 32nd power of the step is a sum of lower ones. A word can therefore write any sum of powers: bit `i` says whether the `i`-th power is in it. `double`, `times` and `power` compute on such words what multiplication does to the sums that they write, which is arithmetic of polynomials over the field of two elements, modulo one of degree 32. An equation between powers of the step thus turns into an equation between words, and exponents up to 2^32 cost some thousand shifts.
-/

namespace KnownObjects.Mixing

/-- Words, with exclusive or as addition. -/
def Word : Type := UInt32

namespace Word

instance : DecidableEq Word := inferInstanceAs (DecidableEq UInt32)

instance : Add Word := ⟨fun (x y : UInt32) => x ^^^ y⟩

instance : Zero Word := ⟨(0 : UInt32)⟩

instance : Neg Word := ⟨id⟩

instance : AddCommGroup Word where
  nsmul := nsmulRec
  zsmul := zsmulRec
  add_assoc := UInt32.xor_assoc
  zero_add _ := UInt32.zero_xor
  add_zero _ := UInt32.xor_zero
  neg_add_cancel _ := UInt32.xor_self
  add_comm := UInt32.xor_comm

/-- The word with the lowest bits of a number. -/
def ofNat (n : Nat) : Word := UInt32.ofNat n

theorem ofNat_xor (m n : Nat) : ofNat (m ^^^ n) = ofNat m + ofNat n := UInt32.ofNat_xor m n

theorem ofNat_two_pow {i : Nat} (hi : 32 ≤ i) : ofNat (2 ^ i) = 0 := by
  obtain ⟨k, rfl⟩ := Nat.exists_eq_add_of_le hi
  apply UInt32.toNat_inj.1
  show 2 ^ (32 + k) % 2 ^ 32 = 0
  rw [Nat.pow_add]
  exact Nat.mul_mod_right _ _

theorem exists_ofNat (x : Word) : ∃ n, x = ofNat n := ⟨UInt32.toNat x, UInt32.ofNat_toNat.symm⟩

end Word

/-! ### Additive functions -/

/-- A function that turns exclusive or into addition is known by its values at the powers of two. -/
theorem eq_zero_of_two_pow {A : Type} [AddCommGroup A] {f : Nat → A} (hxor : ∀ m n, f (m ^^^ n) = f m + f n)
    (hpow : ∀ i, f (2 ^ i) = 0) (n : Nat) : f n = 0 := by
  have hzero : f 0 = 0 := by simpa using hxor 0 0
  -- The number without its lowest bit is the double of a smaller one, and doubling carries powers of two into powers of two.
  induction n using Nat.binaryRec generalizing f with
  | zero => exact hzero
  | bit b n ih =>
    have hhigh : f (Nat.bit false n) = 0 := by
      apply ih (f := fun m => f (Nat.bit false m))
      · intro k m
        exact (congrArg f (Nat.xor_bit false k false m)).symm.trans (hxor _ _)
      · intro i
        exact (congrArg f (Nat.pow_succ' : 2 ^ (i + 1) = 2 * 2 ^ i)).symm.trans (hpow (i + 1))
      · exact hzero
    have hlow : f (Nat.bit b 0) = 0 := by
      cases b with
      | false => exact hzero
      | true => exact hpow 0
    have hsplit : Nat.bit b n = Nat.bit false n ^^^ Nat.bit b 0 := by
      rw [Nat.xor_bit, Bool.false_bne, Nat.xor_zero]
    rw [hsplit, hxor, hhigh, hlow, add_zero]

theorem ext_two_pow {f g : AddMonoid.End Word} (h : ∀ i < 32, f (.ofNat (2 ^ i)) = g (.ofNat (2 ^ i))) : f = g := by
  apply AddMonoidHom.ext
  intro x
  obtain ⟨n, rfl⟩ := x.exists_ofNat
  apply sub_eq_zero.1
  apply eq_zero_of_two_pow (f := fun n => f (.ofNat n) - g (.ofNat n))
  · intro m n
    rw [Word.ofNat_xor, map_add, map_add, add_sub_add_comm]
  · intro i
    by_cases hi : i < 32
    · exact sub_eq_zero.2 (h i hi)
    · rw [Word.ofNat_two_pow (Nat.le_of_not_lt hi), map_zero, map_zero, sub_zero]

theorem add_self (f : AddMonoid.End Word) : f + f = 0 := AddMonoidHom.ext fun x => neg_add_cancel (f x)

/-! ### The step -/

def shiftLeft (k : UInt32) : AddMonoid.End Word :=
  AddMonoidHom.mk' (fun (x : UInt32) => x <<< k) fun _ _ => UInt32.shiftLeft_xor

def shiftRight (k : UInt32) : AddMonoid.End Word :=
  AddMonoidHom.mk' (fun (x : UInt32) => x >>> k) fun _ _ => UInt32.shiftRight_xor

/-- One step of the generator. -/
def step : AddMonoid.End Word := (1 + shiftLeft 5) * (1 + shiftRight 17) * (1 + shiftLeft 13)

theorem coe_step : (⇑step : UInt32 → UInt32) = nextHash := rfl

theorem step_pow_apply (n : Nat) (x : UInt32) : (step ^ n) x = nextHash^[n] x := by
  rw [AddMonoid.End.coe_pow]
  exact congrArg (·^[n] x) coe_step

/-! ### Sums of powers of the step -/

/-- The sum that a word writes. -/
def polynomial (c : UInt32) : AddMonoid.End Word :=
  ∑ i ∈ Finset.range 32, if c.toBitVec.getLsbD i then step ^ i else 0

theorem polynomial_xor (c d : UInt32) : polynomial (c ^^^ d) = polynomial c + polynomial d := by
  simp only [polynomial]
  rw [← Finset.sum_add_distrib]
  apply Finset.sum_congr rfl
  intro i _
  rw [UInt32.toBitVec_xor, BitVec.getLsbD_xor]
  cases c.toBitVec.getLsbD i <;> cases d.toBitVec.getLsbD i <;> simp [add_self]

/-- The lower powers whose sum is the 32nd. -/
def reduction : UInt32 := 0x3ec241

theorem polynomial_reduction : polynomial reduction = step ^ 32 := by
  apply ext_two_pow
  decide +kernel

theorem polynomial_zero : polynomial 0 = 0 := by
  apply ext_two_pow
  decide +kernel

theorem polynomial_one : polynomial 1 = 1 := by
  apply ext_two_pow
  decide +kernel

theorem polynomial_two : polynomial 2 = step := by
  apply ext_two_pow
  decide +kernel

theorem getLsbD_shiftLeft_one (c : UInt32) (i : Nat) :
    (c <<< 1).toBitVec.getLsbD (i + 1) = (decide (i + 1 < 32) && c.toBitVec.getLsbD i) := by
  show (c.toBitVec <<< 1).getLsbD (i + 1) = _
  simp [BitVec.getLsbD_shiftLeft]

theorem getLsbD_shiftRight_one (c : UInt32) (i : Nat) :
    (c >>> 1).toBitVec.getLsbD i = c.toBitVec.getLsbD (i + 1) := by
  show (c.toBitVec >>> 1).getLsbD i = _
  rw [BitVec.getLsbD_ushiftRight, Nat.add_comm]

/-- A shift moves every power up, except for the last one, which it loses. -/
theorem polynomial_shiftLeft_one (c : UInt32) :
    polynomial (c <<< 1) + (if c.toBitVec.getLsbD 31 then step ^ 32 else 0) = step * polynomial c := by
  have hlowest : (c <<< 1).toBitVec.getLsbD 0 = false := by
    show (c.toBitVec <<< 1).getLsbD 0 = false
    simp
  have hothers : ∀ i ∈ Finset.range 31, (if (c <<< 1).toBitVec.getLsbD (i + 1) then step ^ (i + 1) else 0) =
      step * if c.toBitVec.getLsbD i then step ^ i else 0 := by
    intro i hi
    have hi : i + 1 < 32 := Nat.succ_lt_succ (Finset.mem_range.1 hi)
    rw [getLsbD_shiftLeft_one, decide_eq_true hi, Bool.true_and, mul_ite, mul_zero, pow_succ']
  simp only [polynomial]
  rw [Finset.sum_range_succ' _ 31, hlowest, Finset.sum_congr rfl hothers, Finset.sum_range_succ _ 31, mul_add,
    Finset.mul_sum, mul_ite, mul_zero, ← pow_succ']
  simp

/-- One more factor. -/
def double (c : UInt32) : UInt32 :=
  if c.toBitVec.getLsbD 31 then c <<< 1 ^^^ reduction else c <<< 1

theorem polynomial_double (c : UInt32) : polynomial (double c) = step * polynomial c := by
  rw [← polynomial_shiftLeft_one, double]
  split
  · rw [polynomial_xor, polynomial_reduction]
  · rw [add_zero]

/-- The product of the lowest powers that a word writes with all that another one writes. -/
def times : Nat → UInt32 → UInt32 → UInt32
  | 0, _, _ => 0
  | n + 1, c, d => (if c.toBitVec.getLsbD 0 then d else 0) ^^^ double (times n (c >>> 1) d)

theorem polynomial_times (n : Nat) (c d : UInt32) : polynomial (times n c d) =
    (∑ i ∈ Finset.range n, if c.toBitVec.getLsbD i then step ^ i else 0) * polynomial d := by
  induction n generalizing c with
  | zero => rw [times, polynomial_zero, Finset.sum_range_zero, zero_mul]
  | succ n ih =>
    have hlowest : polynomial (if c.toBitVec.getLsbD 0 then d else 0) =
        (if c.toBitVec.getLsbD 0 then step ^ 0 else 0) * polynomial d := by
      split
      · rw [pow_zero, one_mul]
      · rw [polynomial_zero, zero_mul]
    have hothers : ∀ i ∈ Finset.range n, (step * if (c >>> 1).toBitVec.getLsbD i then step ^ i else 0) =
        if c.toBitVec.getLsbD (i + 1) then step ^ (i + 1) else 0 := by
      intro i _
      rw [getLsbD_shiftRight_one, mul_ite, mul_zero, pow_succ']
    rw [times, polynomial_xor, polynomial_double, ih, hlowest, ← mul_assoc, Finset.mul_sum, Finset.sum_congr rfl hothers,
      Finset.sum_range_succ', add_mul, add_comm]

theorem polynomial_times_word (c d : UInt32) : polynomial (times 32 c d) = polynomial c * polynomial d :=
  polynomial_times 32 c d

/-- The power of what a word writes, with an exponent that has a given number of bits. -/
def power : Nat → UInt32 → Nat → UInt32
  | 0, _, _ => 1
  | bits + 1, c, n =>
    let others := power bits (times 32 c c) (n / 2)
    if n % 2 = 1 then times 32 others c else others

theorem polynomial_power {bits : Nat} (c : UInt32) {n : Nat} (hn : n < 2 ^ bits) :
    polynomial (power bits c n) = polynomial c ^ n := by
  induction bits generalizing c n with
  | zero =>
    obtain rfl : n = 0 := by simpa using hn
    exact polynomial_one
  | succ bits ih =>
    have hothers : polynomial (power bits (times 32 c c) (n / 2)) = polynomial c ^ (2 * (n / 2)) := by
      rw [ih _ (by omega), polynomial_times_word, pow_mul, sq]
    rw [power]
    split
    · rename_i hodd
      rw [polynomial_times_word, hothers, ← pow_succ]
      congr 1
      omega
    · rename_i heven
      rw [hothers]
      congr 1
      omega

end KnownObjects.Mixing
