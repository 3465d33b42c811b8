import KnownObjects.Proofs.Hash.Mixing
import Mathlib.Dynamics.PeriodicPts.Lemmas
import Mathlib.GroupTheory.Perm.Cycle.Basic
import Mathlib.Order.Interval.Finset.Nat
import Mathlib.Tactic.NormNum.Prime

/-!
# The cycle of hashes

From any word other than zero the generator goes through all words other than zero before it comes back. It does come back after 2^32 - 1 steps, because that power of the step is the identity. It does not come back earlier: the least number of steps would divide (2^32 - 1) / p for one of the five prime factors p, and the step to that exponent moves every word but zero, since its sum with the identity is a unit.

Both facts are equations between powers in the ring of endomorphisms, and `power` computes them on words.
-/

namespace KnownObjects

/-- A period is the least one if no prime can be divided out of it. -/
theorem minimalPeriod_eq_of_prime {α : Type} {f : α → α} {x : α} {n : Nat} (hx : Function.IsPeriodicPt f n x)
    (hproper : ∀ p, p.Prime → p ∣ n → ¬ Function.IsPeriodicPt f (n / p) x) : Function.minimalPeriod f x = n := by
  obtain ⟨k, hk⟩ := hx.minimalPeriod_dvd
  by_contra hne
  have hk1 : k ≠ 1 := by
    rintro rfl
    exact hne (hk.trans (Nat.mul_one _)).symm
  obtain ⟨p, hp, m, rfl⟩ := Nat.exists_prime_and_dvd hk1
  have hsplit : n = p * (Function.minimalPeriod f x * m) := by rw [hk, Nat.mul_left_comm]
  have hless : n / p = Function.minimalPeriod f x * m := by rw [hsplit, Nat.mul_div_cancel_left _ hp.pos]
  apply hproper p hp (Dvd.intro _ hsplit.symm)
  rw [hless]
  exact (Function.isPeriodicPt_minimalPeriod f x).mul_const m

namespace Mixing

/-- The prime factors of 2^32 - 1. -/
def primes : List Nat := [3, 5, 17, 257, 65537]

theorem mem_primes {p : Nat} (hp : p.Prime) (hdvd : p ∣ 4294967295) : p ∈ primes := by
  have hprimes : ∀ q ∈ primes, q.Prime := by
    simp only [primes, List.forall_mem_cons]
    norm_num
  obtain ⟨q, hq, hpq⟩ := (hp.prime.dvd_prod_iff (L := primes)).1 hdvd
  rwa [(Nat.prime_dvd_prime_iff_eq hp (hprimes q hq)).1 hpq]

theorem step_pow_eq_one : step ^ 4294967295 = 1 := by
  have hpower : power 32 2 4294967295 = 1 := by decide +kernel
  have hlt : 4294967295 < 2 ^ 32 := by decide
  rw [← polynomial_one, ← hpower, polynomial_power 2 hlt, polynomial_two]

/-- As in a field of 2^32 elements, the power with the exponent 2^32 - 1 is one. -/
theorem isUnit_step_pow_add_one {p : Nat} (hp : p ∈ primes) : IsUnit (step ^ (4294967295 / p) + 1) := by
  have hpower : ∀ p ∈ primes, power 32 (power 32 2 (4294967295 / p) ^^^ 1) 4294967295 = 1 := by decide +kernel
  have hall : 4294967295 < 2 ^ 32 := by decide
  have hpart : 4294967295 / p < 2 ^ 32 := (Nat.div_le_self _ p).trans_lt hall
  have hone : (step ^ (4294967295 / p) + 1) ^ 4294967295 = 1 := by
    rw [← polynomial_one, ← polynomial_two, ← polynomial_power 2 hpart, ← polynomial_xor, ← polynomial_power _ hall,
      hpower p hp]
  exact .of_pow_eq_one hone (by decide)

theorem eq_zero_of_step_pow {p : Nat} (hp : p ∈ primes) {x : Word} (hx : (step ^ (4294967295 / p)) x = x) : x = 0 := by
  obtain ⟨u, hu⟩ := isUnit_step_pow_add_one hp
  have hzero : u.val x = 0 := by
    rw [hu]
    show (step ^ (4294967295 / p)) x + x = 0
    rw [hx]
    exact neg_add_cancel x
  calc
    x = (u⁻¹.val * u.val) x := by rw [Units.inv_mul, AddMonoid.End.coe_one, id]
    _ = u⁻¹.val 0 := congrArg u⁻¹.val hzero
    _ = 0 := map_zero _

end Mixing

open Function

theorem isPeriodicPt_nextHash (x : UInt32) : IsPeriodicPt nextHash 4294967295 x := by
  show nextHash^[4294967295] x = x
  rw [← Mixing.step_pow_apply, Mixing.step_pow_eq_one]
  rfl

theorem minimalPeriod_nextHash {x : UInt32} (hx : x ≠ 0) : minimalPeriod nextHash x = 4294967295 := by
  apply minimalPeriod_eq_of_prime (isPeriodicPt_nextHash x)
  intro p hp hdvd hperiod
  apply hx
  apply Mixing.eq_zero_of_step_pow (Mixing.mem_primes hp hdvd)
  exact (Mixing.step_pow_apply _ x).trans hperiod

/-! ### The permutation -/

theorem nextHash_bijective : Bijective nextHash := by
  have hall : periodicPts nextHash = Set.univ :=
    Set.eq_univ_of_forall fun x => mk_mem_periodicPts (by decide) (isPeriodicPt_nextHash x)
  have hbij := bijOn_periodicPts nextHash
  rw [hall] at hbij
  exact Set.bijOn_univ.1 hbij

/-- The generator as a permutation of the words. -/
noncomputable def hashPermutation : Equiv.Perm UInt32 := .ofBijective nextHash nextHash_bijective

theorem nextHash_eq_zero_iff {x : UInt32} : nextHash x = 0 ↔ x = 0 :=
  nextHash_bijective.injective.eq_iff' rfl

theorem iterate_nextHash_ne_zero {x : UInt32} (hx : x ≠ 0) (n : Nat) : nextHash^[n] x ≠ 0 := by
  induction n with
  | zero => exact hx
  | succ n ih =>
    rw [iterate_succ_apply']
    exact fun hzero => ih (nextHash_eq_zero_iff.1 hzero)

theorem iterate_nextHash_inj {x : UInt32} (hx : x ≠ 0) {m n : Nat} (hm : m < 4294967295) (hn : n < 4294967295) :
    nextHash^[m] x = nextHash^[n] x ↔ m = n := by
  rw [← minimalPeriod_nextHash hx] at hm hn
  exact iterate_eq_iterate_iff_of_lt_minimalPeriod hm hn

theorem toNat_mem_Ico {x : UInt32} (hx : x ≠ 0) : x.toNat ∈ Finset.Ico 1 4294967296 := by
  have hpos : x.toNat ≠ 0 := fun hzero => hx (UInt32.toNat_inj.1 hzero)
  rw [Finset.mem_Ico]
  exact ⟨Nat.one_le_iff_ne_zero.2 hpos, x.toNat_lt⟩

/-- The generator reaches every word, because it gives as many different ones as there are. -/
theorem exists_iterate_nextHash {x y : UInt32} (hx : x ≠ 0) (hy : y ≠ 0) : ∃ n < 4294967295, nextHash^[n] x = y := by
  have hinj : Set.InjOn (fun n => (nextHash^[n] x).toNat) (Finset.range 4294967295) := by
    intro m hm n hn heq
    rw [Finset.mem_coe, Finset.mem_range] at hm hn
    exact (iterate_nextHash_inj hx hm hn).1 (UInt32.toNat_inj.1 heq)
  have hvalues : (Finset.range 4294967295).image (fun n => (nextHash^[n] x).toNat) = Finset.Ico 1 4294967296 := by
    apply Finset.eq_of_subset_of_card_le
    · intro k hk
      obtain ⟨n, -, rfl⟩ := Finset.mem_image.1 hk
      exact toNat_mem_Ico (iterate_nextHash_ne_zero hx n)
    · rw [Finset.card_image_of_injOn hinj, Finset.card_range, Nat.card_Ico]
  have hmem := toNat_mem_Ico hy
  rw [← hvalues] at hmem
  obtain ⟨n, hn, heq⟩ := Finset.mem_image.1 hmem
  exact ⟨n, Finset.mem_range.1 hn, UInt32.toNat_inj.1 heq⟩

theorem isCycleOn_hashPermutation : hashPermutation.IsCycleOn {x | x ≠ 0} := by
  constructor
  · apply hashPermutation.bijOn
    intro x
    exact not_congr nextHash_eq_zero_iff
  · intro x hx y hy
    obtain ⟨n, -, hn⟩ := exists_iterate_nextHash hx hy
    refine ⟨n, ?_⟩
    rw [zpow_natCast, ← Equiv.Perm.iterate_eq_pow]
    exact hn

end KnownObjects
