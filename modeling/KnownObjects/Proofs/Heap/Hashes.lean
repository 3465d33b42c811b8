import KnownObjects.Proofs.Hash.Period
import KnownObjects.Proofs.Heap.Identity
import KnownObjects.Proofs.Heap.Layout

/-!
# Identity hashes

Each allocation takes the next value of the generator, and nothing else does: a store replaces a value and a collection an address. So the hash of an object is settled by the seed of the heap and the number of the object, whatever happens before and after, and what is known of the cycle of the generator is known of the hashes. None is zero, and the first 2^32 - 1 objects have different ones.

Addresses play no part in this and are not asked to stay within their words.
-/

namespace KnownObjects.Heap

/-- The hashes of the objects, in the order in which these were allocated. -/
def hashes (h : Heap) : List UInt32 := h.objects.map Object.hash

/-- The number of objects that an operation has made. -/
def Operation.births : Operation → Answer → Nat
  | .allocate _, .handle _ => 1
  | _, _ => 0

/-- The heaps that operations lead to, each with the number of objects that were made. -/
inductive Populated : Heap → Nat → Prop
  | created {id : HeapId} {settings : Settings} {h : Heap} : create id settings = .ok h → Populated h 0
  | performed {h : Heap} {n : Nat} (operation : Operation) : Populated h n →
    Populated (h.perform operation).2 (n + operation.births (h.perform operation).1)

/-- The hashes of a heap on which `n` objects were made. -/
structure Marked (h : Heap) (n : Nat) : Prop where
  /-- Zero is the state that the generator would never leave. -/
  state : h.hashState ≠ 0
  /-- No object is ever lost, so the place of an object is the number of its allocation. -/
  count : h.objects.length = n
  /-- An object keeps the value that the generator had for its number. -/
  drawn : ∀ i o, h.objects[i]? = some o → o.hash = nextHash^[i + 1] h.settings.seed
  nonzero : ∀ o ∈ h.objects, o.hash ≠ 0
  distinct : ∀ i j o p, h.objects[i]? = some o → h.objects[j]? = some p → i < 4294967295 → j < 4294967295 → i ≠ j →
    o.hash ≠ p.hash
  /-- The same is true of what is read at the addresses of the objects. -/
  reads : ∀ a i, h.number? a = some i → ∃ x, h.hashOf a = .ok x ∧ x ≠ 0 ∧
    ∀ b j, h.number? b = some j → i < 4294967295 → j < 4294967295 → a ≠ b → h.hashOf b ≠ .ok x

variable {h : Heap}

/-! ### One operation -/

@[simp] theorem hashes_setValue (h : Heap) (a : Address) (slot : Nat) (v : Value) :
    (h.setValue a slot v).hashes = h.hashes := by
  simp only [hashes, setValue, List.map_map]
  apply List.map_congr_left
  intro o _
  simp only [Function.comp]
  split <;> rfl

@[simp] theorem hashes_collect (h : Heap) : h.collect.2.hashes = h.hashes := by
  simp only [hashes, collect, List.map_map]
  rfl

theorem hashes_instantiate (h : Heap) (c : ClassInfo) :
    (h.instantiate c).2.hashes = h.hashes ++ [nextHash h.hashState] := by
  simp only [hashes, instantiate, List.map_append, List.map_cons, List.map_nil]

/-- An operation that makes an object draws its hash, and no other operation touches a hash or the generator. -/
theorem births_cases (h : Heap) (operation : Operation) :
    (operation.births (h.perform operation).1 = 0 ∧ (h.perform operation).2.hashes = h.hashes ∧
      (h.perform operation).2.hashState = h.hashState) ∨
    (operation.births (h.perform operation).1 = 1 ∧
      (h.perform operation).2.hashes = h.hashes ++ [nextHash h.hashState] ∧
      (h.perform operation).2.hashState = nextHash h.hashState) := by
  cases operation with
  | define c => exact Or.inl ⟨rfl, rfl, rfl⟩
  | allocate classId =>
    simp only [perform, allocate]
    cases h.classes[classId]? with
    | none => exact Or.inl ⟨rfl, rfl, rfl⟩
    | some c => exact Or.inr ⟨rfl, hashes_instantiate h c, rfl⟩
  | store holder field value =>
    simp only [perform]
    cases hstore : h.store holder field value with
    | error e => exact Or.inl ⟨rfl, rfl, rfl⟩
    | ok heap =>
      obtain ⟨a, slot, v, rfl, -⟩ := store_eq_ok hstore
      exact Or.inl ⟨rfl, hashes_setValue h a slot v, rfl⟩
  | collect => exact Or.inl ⟨rfl, hashes_collect h, rfl⟩
  | newHandle object =>
    simp only [perform]
    cases hnew : h.newHandle object with
    | error e => exact Or.inl ⟨rfl, rfl, rfl⟩
    | ok made =>
      obtain ⟨-, -, hheap⟩ := newHandle_eq_ok_iff.1 hnew
      rw [hheap]
      exact Or.inl ⟨rfl, rfl, rfl⟩
  | release handles => exact Or.inl ⟨rfl, rfl, rfl⟩

/-! ### The run -/

/-- The generator and the hashes when `n` of them were drawn. -/
structure Drawn (h : Heap) (n : Nat) : Prop where
  seeded : h.settings.seed ≠ 0
  state : h.hashState = nextHash^[n] h.settings.seed
  hashes : h.hashes = (List.range n).map fun k => nextHash^[k + 1] h.settings.seed

theorem seed_ne_zero_of_check {settings : Settings} (hcheck : settings.check = .ok ()) : settings.seed ≠ 0 := by
  intro hzero
  unfold Settings.check at hcheck
  simp only [hzero, if_true] at hcheck
  split_ifs at hcheck

theorem create_drawn {id : HeapId} {settings : Settings} (hcreate : create id settings = .ok h) : h.Drawn 0 := by
  obtain ⟨hcheck, rfl⟩ := create_eq_ok_iff.1 hcreate
  exact ⟨seed_ne_zero_of_check hcheck, rfl, rfl⟩

namespace Drawn

variable {n : Nat}

theorem perform (hdrawn : h.Drawn n) (operation : Operation) :
    (h.perform operation).2.Drawn (n + operation.births (h.perform operation).1) := by
  have hsettings := (perform_change h operation).settings_eq
  obtain ⟨hbirths, hhashes, hstate⟩ | ⟨hbirths, hhashes, hstate⟩ := births_cases h operation
  · rw [hbirths]
    constructor
    · exact hsettings ▸ hdrawn.seeded
    · rw [hstate, hsettings, hdrawn.state, Nat.add_zero]
    · rw [hhashes, hsettings, hdrawn.hashes, Nat.add_zero]
  · have hnext : nextHash h.hashState = nextHash^[n + 1] h.settings.seed := by
      rw [hdrawn.state, Function.iterate_succ_apply']
    rw [hbirths]
    constructor
    · exact hsettings ▸ hdrawn.seeded
    · rw [hstate, hsettings, hnext]
    · rw [hhashes, hsettings, hdrawn.hashes, hnext, List.range_succ, List.map_append, List.map_singleton]

theorem length_eq (hdrawn : h.Drawn n) : h.objects.length = n := by
  have hlength := congrArg List.length hdrawn.hashes
  rwa [Heap.hashes, List.length_map, List.length_map, List.length_range] at hlength

theorem hash_eq (hdrawn : h.Drawn n) {i : Nat} {o : Object} (ho : h.objects[i]? = some o) :
    o.hash = nextHash^[i + 1] h.settings.seed := by
  have hi : i < n := hdrawn.length_eq ▸ (List.getElem?_eq_some_iff.1 ho).1
  have hsame := congrArg (·[i]?) hdrawn.hashes
  simp only [Heap.hashes] at hsame
  rw [List.getElem?_map, List.getElem?_map, ho, List.getElem?_range hi] at hsame
  exact Option.some.inj hsame

theorem hash_ne_zero (hdrawn : h.Drawn n) {i : Nat} {o : Object} (ho : h.objects[i]? = some o) : o.hash ≠ 0 := by
  rw [hdrawn.hash_eq ho]
  exact iterate_nextHash_ne_zero hdrawn.seeded _

/-- The numbers of two objects within one cycle of the generator are told apart by their hashes. -/
theorem hash_inj (hdrawn : h.Drawn n) {i j : Nat} {o p : Object} (ho : h.objects[i]? = some o)
    (hp : h.objects[j]? = some p) (hi : i < 4294967295) (hj : j < 4294967295) (hsame : o.hash = p.hash) : i = j := by
  have hfirst : nextHash h.settings.seed ≠ 0 := iterate_nextHash_ne_zero hdrawn.seeded 1
  rw [hdrawn.hash_eq ho, hdrawn.hash_eq hp, Function.iterate_succ_apply, Function.iterate_succ_apply] at hsame
  exact (iterate_nextHash_inj hfirst hi hj).1 hsame

end Drawn

theorem Populated.drawn {n : Nat} (hrun : h.Populated n) : h.Drawn n := by
  induction hrun with
  | created hcreate => exact create_drawn hcreate
  | performed operation _ ih => exact ih.perform operation

theorem hashOf_of_number? {a : Address} {i : Nat} (hnumber : h.number? a = some i) :
    ∃ o, h.objects[i]? = some o ∧ h.hashOf a = .ok o.hash := by
  obtain ⟨hlt, hfound, hbefore⟩ := List.findIdx?_eq_some_iff_getElem.1 hnumber
  have hobject : h.object? a = some h.objects[i] :=
    List.find?_eq_some_iff_getElem.2 ⟨hfound, i, hlt, rfl, fun j hj => by simpa using hbefore j hj⟩
  refine ⟨h.objects[i], List.getElem?_eq_getElem hlt, ?_⟩
  simp only [hashOf, object, hobject]
  rfl

/-- Identity hashes are not zero and differ, because the generator runs through all words but zero in one cycle. -/
theorem marked_of_populated : hashPermutation.IsCycleOn {x | x ≠ 0} ∧
    ∀ (h : Heap) (n : Nat), h.Populated n → h.Marked n := by
  refine ⟨isCycleOn_hashPermutation, fun h n hrun => ?_⟩
  have hdrawn := hrun.drawn
  constructor
  case state =>
    rw [hdrawn.state]
    exact iterate_nextHash_ne_zero hdrawn.seeded n
  case count => exact hdrawn.length_eq
  case drawn => exact fun i o ho => hdrawn.hash_eq ho
  case nonzero =>
    intro o ho
    obtain ⟨i, hi⟩ := List.getElem?_of_mem ho
    exact hdrawn.hash_ne_zero hi
  case distinct =>
    intro i j o p ho hp hi hj hne hsame
    exact hne (hdrawn.hash_inj ho hp hi hj hsame)
  case reads =>
    intro a i ha
    obtain ⟨o, ho, hread⟩ := hashOf_of_number? ha
    refine ⟨o.hash, hread, hdrawn.hash_ne_zero ho, fun b j hb hi hj hne hsame => ?_⟩
    obtain ⟨p, hp, hother⟩ := hashOf_of_number? hb
    rw [hother, Except.ok.injEq] at hsame
    have hij := hdrawn.hash_inj ho hp hi hj hsame.symm
    exact hne (number?_inj ha (hij ▸ hb))

/-- Three objects, the last one made after a store and a collection, and an allocation in between that names no class. -/
theorem marked_of_three_allocations : ∃ h n, Populated h n ∧ n = 3 ∧ h.hashes = [0x510c4619, 0xe02e553e, 0x7bb98f3a] ∧
    h.Marked n := by
  have hcreated := @Populated.created 0 .default _ rfl
  have hdefined := hcreated.performed (.define ⟨"p/Node", [.ofSignature "next" "Lp/Node;"], false⟩)
  have hfirst := hdefined.performed (.allocate 0)
  have hrefused := hfirst.performed (.allocate 7)
  have hsecond := hrefused.performed (.allocate 0)
  have hlinked := hsecond.performed (.store ⟨0⟩ "next" (.ref ⟨1⟩))
  have hmoved := hlinked.performed .collect
  have hthird := hmoved.performed (.allocate 0)
  exact ⟨_, _, hthird, by decide +kernel, by decide +kernel, marked_of_populated.2 _ _ hthird⟩

end KnownObjects.Heap
