import KnownObjects.Proofs.Heap.Identity

/-!
# A heap tells its history

A chronicle records what happens to a heap without any address in it: which objects were made, in order; which values were stored, the latest first, with the object that a stored reference means given by its number; and which handles are in use, each with the object that it was made for. An operation that is refused leaves no record, and neither does a collection.

The main statement is that the heap is at every moment what its chronicle says. Each object is found at one address with the class and the hash that it was made with, and each of its fields holds what was last stored in that field of that object, through whatever handle, or the zero that it started with. A reference that was stored long ago leads to the same object, wherever that object lies now, and so does a handle until it is given back.
-/

namespace KnownObjects

/-- What a field holds, with the object that a reference means given by its number. -/
inductive Content where
  | int (value : Int32)
  | long (value : Int64)
  | ref (object : Option Nat)
deriving DecidableEq

namespace Content

/-- What a field holds before anything is stored in it. -/
def zeroOf (f : Field) : Content :=
  match Field.kind? f.signature with
  | some 'J' => long 0
  | some 'L' => ref none
  | some '[' => ref none
  | _ => int 0

/-- Whether a field takes a content of this kind. -/
def fits (f : Field) : Content → Bool
  | ref _ => f.isReference
  | long _ => f.signature == "J"
  | int _ => !f.isReference && f.signature != "J"

end Content

structure Birth where
  classInfo : ClassInfo
  hash : UInt32
deriving DecidableEq

structure Write where
  object : Nat
  slot : Nat
  content : Content
deriving DecidableEq

structure Chronicle where
  births : List Birth
  writes : List Write
  names : List (Handle × Nat)
deriving DecidableEq

namespace Chronicle

def empty : Chronicle := ⟨[], [], []⟩

/-- What was last written to a slot of an object. -/
def contentAt (c : Chronicle) (object slot : Nat) (f : Field) : Content :=
  match c.writes.find? fun w => w.object == object && w.slot == slot with
  | some w => w.content
  | none => .zeroOf f

/-- What a mutator means by a value, if the handle in it is in use. -/
def contentOf? (c : Chronicle) : NewValue → Option Content
  | .int v => some (.int v)
  | .long v => some (.long v)
  | .ref target => (c.names.lookup target).map fun n => .ref (some n)
  | .null => some (.ref none)

/-- The record of a store that is not refused. -/
def write? (c : Chronicle) (holder : Handle) (field : String) (value : NewValue) : Option Write := do
  let object ← c.names.lookup holder
  let content ← c.contentOf? value
  let birth ← c.births[object]?
  let slot ← birth.classInfo.slotOf? field
  let f ← birth.classInfo.fields[slot]?
  if content.fits f then some ⟨object, slot, content⟩ else none

/-- What is recorded when an operation is performed on a heap. The heap is asked only for the class and the hash of a new object, for the number of an object whose address is given, and for the name of a new handle. -/
def next (c : Chronicle) (h : Heap) : Heap.Operation → Chronicle
  | .define _ => c
  | .allocate classId =>
    match h.classes[classId]?, (h.perform (.allocate classId)).1 with
    | some classInfo, .handle handle =>
      { c with
        births := c.births ++ [⟨classInfo, nextHash h.hashState⟩]
        names := (handle, c.births.length) :: c.names }
    | _, _ => c
  | .store holder field value => { c with writes := (c.write? holder field value).toList ++ c.writes }
  | .collect => c
  | .newHandle object =>
    match h.number? object, (h.perform (.newHandle object)).1 with
    | some n, .handle handle => { c with names := (handle, n) :: c.names }
    | _, _ => c
  | .release handles => { c with names := c.names.filter fun entry => entry.1 ∉ handles }

end Chronicle

namespace Heap

/-- Where the object of a number lies at the moment. -/
def addressOf? (h : Heap) (n : Nat) : Option Address := h.objects[n]?.map Object.address

/-- A value stands for a content: a reference for the object that lies at its address now. -/
inductive Stands (h : Heap) : Content → Value → Prop
  | int (v : Int32) : Stands h (.int v) (.int v)
  | long (v : Int64) : Stands h (.long v) (.long v)
  | null : Stands h (.ref none) (.ref .null)
  | ref {n : Nat} {a : Address} : h.addressOf? n = some a → Stands h (.ref (some n)) (.ref a)

/-- The heaps that operations lead to, each with its chronicle. Addresses and handles stay within their words. -/
inductive Recorded : Heap → Chronicle → Prop
  | created {id : HeapId} {settings : Settings} {h : Heap} : create id settings = .ok h → Recorded h .empty
  | performed {h : Heap} {c : Chronicle} (operation : Operation) : Recorded h c →
    (h.perform operation).2.WithinSpace → (h.perform operation).2.handles.slots.size < 4294967296 →
    Recorded (h.perform operation).2 (c.next h operation)

/-- A heap is as its chronicle says. -/
structure Told (h : Heap) (c : Chronicle) : Prop where
  count : h.objects.length = c.births.length
  /-- An object lies at one address, from which all that was recorded of it can be read. -/
  object : ∀ n birth, c.births[n]? = some birth → ∃ a, h.addressOf? n = some a ∧ h.number? a = some n ∧
    h.classOf a = .ok birth.classInfo ∧ h.hashOf a = .ok birth.hash ∧
    ∀ (slot : UInt64) (f : Field), birth.classInfo.fields[slot.toNat]? = some f →
      ∃ v, h.fieldAt a slot = .ok v ∧ h.Stands (c.contentAt n slot.toNat f) v
  named : ∀ handle n, c.names.lookup handle = some n → ∃ a, h.addressOf? n = some a ∧ h.resolve handle = .ok a
  nameless : ∀ handle, c.names.lookup handle = none → h.resolve handle = .error (.invalidHandle handle)
  /-- The chronicle alone decides which stores are refused. -/
  store : ∀ holder field value,
    (h.perform (.store holder field value)).1 = .done ↔ (c.write? holder field value).isSome = true
  collect : (h.perform .collect).1 = .count c.births.length

/-- What a value says of the object that it refers to. -/
def contentOf (h : Heap) : Value → Content
  | .int v => .int v
  | .long v => .long v
  | .ref a => .ref (h.number? a)

/-- The chronicle in the heap's own terms. -/
structure Matches (h : Heap) (c : Chronicle) : Prop where
  births : c.births = h.objects.map fun o => ⟨o.classInfo, o.hash⟩
  past : ∀ w ∈ c.writes, w.object < h.objects.length
  names : ∀ handle, c.names.lookup handle = h.numberOf? handle
  contents : ∀ (n : Nat) (o : Object) (slot : Nat) (f : Field), h.objects[n]? = some o →
    o.classInfo.fields[slot]? = some f → (o.values[slot]?).map h.contentOf = some (c.contentAt n slot f)

theorem contentOf_zeroOf {h : Heap} (hh : h.WellFormed) (f : Field) : h.contentOf (Value.zeroOf f) = Content.zeroOf f := by
  unfold Value.zeroOf Content.zeroOf
  split <;> simp_all [contentOf, hh.number?_null]

theorem fits_contentOf (h : Heap) (f : Field) (v : Value) : (h.contentOf v).fits f = v.fits f := by
  cases v <;> rfl

/-- A value that leads to an object or nowhere means the same wherever objects keep their numbers. -/
theorem contentOf_eq {h k : Heap} (hh : h.WellFormed) (hk : k.WellFormed)
    (hnumbers : ∀ a n, h.number? a = some n → k.number? a = some n) {v : Value}
    (hv : ∀ a, v = .ref a → a = .null ∨ h.isLive a = true) : k.contentOf v = h.contentOf v := by
  cases v with
  | int | long => rfl
  | ref a =>
    simp only [contentOf]
    rcases hv a rfl with rfl | hlive
    · rw [hh.number?_null, hk.number?_null]
    · obtain ⟨n, hn⟩ := exists_number?_iff.2 hlive
      rw [hn, hnumbers a n hn]

theorem Stands.of_contentOf {h : Heap} (hh : h.WellFormed) {v : Value}
    (hv : ∀ a, v = .ref a → a = .null ∨ h.isLive a = true) : h.Stands (h.contentOf v) v := by
  cases v with
  | int v => exact .int v
  | long v => exact .long v
  | ref a =>
    simp only [contentOf]
    rcases hv a rfl with rfl | hlive
    · rw [hh.number?_null]
      exact .null
    · obtain ⟨n, hn⟩ := exists_number?_iff.2 hlive
      obtain ⟨o, ho, haddress⟩ := exists_of_number? hn
      rw [hn]
      refine .ref ?_
      simp only [addressOf?, ho, Option.map_some, haddress]

theorem addressOf?_eq_some_iff {h : Heap} (hh : h.WellFormed) {n : Nat} {a : Address} :
    h.addressOf? n = some a ↔ h.number? a = some n := by
  rw [hh.number?_eq_some_iff]
  simp only [addressOf?, Option.map_eq_some_iff]

/-! ### Stores -/

namespace Matches

variable {h : Heap} {c : Chronicle}

theorem birth_eq (hm : h.Matches c) {n : Nat} {o : Object} (ho : h.objects[n]? = some o) :
    c.births[n]? = some ⟨o.classInfo, o.hash⟩ := by
  rw [hm.births, List.getElem?_map, ho, Option.map_some]

theorem contentOf?_of_valueOf (hm : h.Matches c) (hh : h.WellFormed) {new : NewValue} {v : Value}
    (hvalue : h.valueOf new = .ok v) : c.contentOf? new = some (h.contentOf v) := by
  cases new with
  | int n | long n =>
    obtain rfl := Except.ok.inj hvalue
    rfl
  | null =>
    obtain rfl := Except.ok.inj hvalue
    simp only [Chronicle.contentOf?, contentOf, hh.number?_null]
  | ref target =>
    obtain ⟨a, hresolve, hmade⟩ := Except.bind_eq_ok_iff.1 hvalue
    obtain rfl := Except.ok.inj hmade
    have hget := resolve_eq_ok_iff.1 hresolve
    obtain ⟨n, hn⟩ := exists_number?_iff.2 (hh.isLive_of_get? hget)
    simp only [Chronicle.contentOf?, contentOf]
    rw [hm.names, numberOf?, hget, Option.bind_some, hn, Option.map_some]

theorem contentOf?_of_valueOf_error (hm : h.Matches c) {new : NewValue} {e : HeapError}
    (hvalue : h.valueOf new = .error e) : c.contentOf? new = none := by
  cases new with
  | int n | long n | null => simp [valueOf] at hvalue
  | ref target =>
    rcases Except.bind_eq_error_iff.1 hvalue with hresolve | ⟨a, -, hmade⟩
    · have hget : h.handles.get? target = none := by
        cases hget : h.handles.get? target with
        | none => rfl
        | some a => simp [resolve, hget] at hresolve
      simp only [Chronicle.contentOf?]
      rw [hm.names, numberOf?, hget, Option.bind_none, Option.map_none]
    · simp [pure, Except.pure] at hmade

/-- A store and its record: either the store replaces one value and the record says which, or it is refused and leaves none. -/
theorem store_cases (hm : h.Matches c) (hh : h.WellFormed) (holder : Handle) (field : String) (new : NewValue) :
    (∃ (n : Nat) (o : Object) (slot : Nat) (f : Field) (v : Value), h.objects[n]? = some o ∧
      o.classInfo.fields[slot]? = some f ∧ h.valueOf new = .ok v ∧
      h.store holder field new = .ok (h.setValue o.address slot v) ∧
      c.write? holder field new = some ⟨n, slot, h.contentOf v⟩) ∨
    (∃ e, h.store holder field new = .error e) ∧ c.write? holder field new = none := by
  -- The store and the record make the same checks in the same order, and the first that fails ends both.
  simp only [store, Chronicle.write?, hm.names, numberOf?]
  cases hget : h.handles.get? holder with
  | none => exact Or.inr ⟨⟨.invalidHandle holder, by simp [resolve, hget, bind, Except.bind]⟩, rfl⟩
  | some a =>
    obtain ⟨n, hn⟩ := exists_number?_iff.2 (hh.isLive_of_get? hget)
    obtain ⟨o, ho, rfl⟩ := exists_of_number? hn
    have hobject := hh.object_eq_ok_iff.2 ⟨List.mem_of_getElem? ho, rfl⟩
    simp only [resolve_eq_ok_iff.2 hget, Option.bind_some, hn, bind, Except.bind]
    cases hvalue : h.valueOf new with
    | error e => exact Or.inr ⟨⟨e, rfl⟩, by rw [hm.contentOf?_of_valueOf_error hvalue, Option.bind_none]⟩
    | ok v =>
      simp only [hm.contentOf?_of_valueOf hh hvalue, hobject, hm.birth_eq ho, slotOf, Option.bind_some]
      cases hslot : o.classInfo.slotOf? field with
      | none => exact Or.inr ⟨⟨.unknownField o.classInfo.name field, rfl⟩, rfl⟩
      | some slot =>
        simp only [Option.bind_some]
        cases hfield : o.classInfo.fields[slot]? with
        | none => exact Or.inr ⟨⟨.unknownField o.classInfo.name field, rfl⟩, rfl⟩
        | some f =>
          simp only [Option.bind_some]
          rw [fits_contentOf]
          cases hfits : v.fits f with
          | true => exact Or.inl ⟨n, o, slot, f, v, ho, hfield, rfl, rfl, rfl⟩
          | false => exact Or.inr ⟨⟨.typeMismatch f.name f.signature, rfl⟩, rfl⟩

theorem setValue (hm : h.Matches c) (hh : h.WellFormed) {n slot : Nat} {o : Object} (ho : h.objects[n]? = some o)
    (v : Value) : (h.setValue o.address slot v).Matches { c with writes := ⟨n, slot, h.contentOf v⟩ :: c.writes } := by
  have hcontent : ∀ w, (h.setValue o.address slot v).contentOf w = h.contentOf w := by
    intro w
    cases w with
    | int | long => rfl
    | ref a => simp only [contentOf, WellFormed.number?_setValue]
  have hnumber := (hh.number?_eq_some_iff (a := o.address)).2 ⟨o, ho, rfl⟩
  constructor
  case births =>
    rw [hm.births]
    simp only [Heap.setValue, List.map_map]
    apply List.map_congr_left
    intro p _
    simp only [Function.comp]
    split <;> rfl
  case past =>
    intro w hw
    simp only [Heap.setValue, List.length_map]
    rcases List.mem_cons.1 hw with rfl | hw
    · exact (List.getElem?_eq_some_iff.1 ho).1
    · exact hm.past w hw
  case names =>
    intro handle
    simp only [numberOf?]
    rw [hm.names]
    exact congrArg _ (funext fun a => (WellFormed.number?_setValue o.address slot v a).symm)
  case contents =>
    intro m p k f hp hf
    simp only [Heap.setValue] at hp
    rw [List.getElem?_map, Option.map_eq_some_iff] at hp
    obtain ⟨q, hq, rfl⟩ := hp
    rw [funext hcontent]
    by_cases hm' : m = n
    · subst hm'
      obtain rfl := Option.some.inj (ho.symm.trans hq)
      simp only [beq_self_eq_true, if_true] at hf ⊢
      by_cases hk : k = slot
      · subst hk
        have hlt : k < o.values.length := by
          rw [hh.shaped o (List.mem_of_getElem? ho)]
          exact (List.getElem?_eq_some_iff.1 hf).1
        simp [Chronicle.contentAt, hlt]
      · have hother := hm.contents m o k f ho hf
        simp only [Chronicle.contentAt] at hother ⊢
        rw [List.getElem?_set_ne (Ne.symm hk), hother, List.find?_cons_of_neg (by simp [Ne.symm hk])]
    · have hne : q.address ≠ o.address := by
        intro heq
        have hother := (hh.number?_eq_some_iff (a := q.address)).2 ⟨q, hq, rfl⟩
        rw [heq, hnumber] at hother
        exact hm' (Option.some.inj hother).symm
      simp only [beq_false_of_ne hne, Bool.false_eq_true, if_false] at hf ⊢
      have hother := hm.contents m q k f hq hf
      simp only [Chronicle.contentAt] at hother ⊢
      rw [hother, List.find?_cons_of_neg (by simp [Ne.symm hm'])]

/-! ### The other changes -/

/-- Where objects stay as they are, only the names of handles have to be compared. -/
theorem withHandles (hm : h.Matches c) {t : HandleTable} {names : List (Handle × Nat)}
    (hnames : ∀ handle, names.lookup handle = (t.get? handle).bind h.number?) :
    Heap.Matches { h with handles := t } { c with names } where
  births := hm.births
  past := hm.past
  names := hnames
  contents := hm.contents

/-- After an insertion the new handle has the name that it was made for, and all others keep theirs. -/
theorem lookup_insert (hm : h.Matches c) (hh : h.WellFormed) (hroom : h.handles.slots.size < 4294967296)
    {a : Address} (ha : a ≠ .null) {n : Nat} {number : Address → Option Nat} (hnew : number a = some n)
    (hold : ∀ b m, h.number? b = some m → number b = some m) (handle : Handle) :
    (((h.handles.insert a).1, n) :: c.names).lookup handle = ((h.handles.insert a).2.get? handle).bind number := by
  by_cases heq : handle = (h.handles.insert a).1
  · rw [heq, hh.handles_valid.get?_insert_self ha hroom, Option.bind_some, hnew, List.lookup_cons_self]
  · rw [HandleTable.Valid.get?_insert_of_ne heq, List.lookup_cons, beq_false_of_ne heq]
    refine (hm.names handle).trans ?_
    simp only [numberOf?]
    cases hget : h.handles.get? handle with
    | none => rfl
    | some b =>
      obtain ⟨m, hnumber⟩ := exists_number?_iff.2 (hh.isLive_of_get? hget)
      rw [Option.bind_some, Option.bind_some, hnumber, hold b m hnumber]

theorem instantiate (hm : h.Matches c) (hh : h.WellFormed) (classInfo : ClassInfo)
    (hspace : (h.instantiate classInfo).2.WithinSpace) (hroom : h.handles.slots.size < 4294967296) :
    (h.instantiate classInfo).2.Matches
      { c with
        births := c.births ++ [⟨classInfo, nextHash h.hashState⟩]
        names := ((h.instantiate classInfo).1, c.births.length) :: c.names } := by
  have hafter := hh.instantiate classInfo hspace
  have hlength : c.births.length = h.objects.length := by rw [hm.births, List.length_map]
  have hne : Address.ofNat h.frontier ≠ .null := hafter.ne_null_of_isLive (isLive_instantiate_self h classInfo)
  constructor
  case births =>
    simp only [Heap.instantiate]
    rw [List.map_append, hm.births]
    rfl
  case past =>
    intro w hw
    have hlt := hm.past w hw
    simp only [Heap.instantiate, List.length_append]
    omega
  case names =>
    rw [hlength]
    refine hm.lookup_insert hh hroom hne ?_ fun a m => WellFormed.number?_instantiate classInfo
    rw [hafter.number?_eq_some_iff]
    simp [Heap.instantiate]
  case contents =>
    intro n o slot f ho hf
    simp only [Heap.instantiate] at ho
    rw [List.getElem?_append] at ho
    split at ho
    · refine Eq.trans ?_ (hm.contents n o slot f ho hf)
      cases hv : o.values[slot]? with
      | none => rfl
      | some v =>
        rw [Option.map_some, Option.map_some]
        congr 1
        refine contentOf_eq hh hafter (fun a m => WellFormed.number?_instantiate classInfo) fun a ha => ?_
        exact hh.references o (List.mem_of_getElem? ho) a (ha ▸ List.mem_of_getElem? hv)
    · rename_i hn
      have hsame : n = h.objects.length := by
        have hlt := (List.getElem?_eq_some_iff.1 ho).1
        simp only [List.length_singleton] at hlt
        omega
      subst hsame
      simp only [Nat.sub_self, List.getElem?_cons_zero, Option.some.injEq] at ho
      subst ho
      -- Nothing was written to the object before it was made.
      have hnone : c.writes.find? (fun w => w.object == h.objects.length && w.slot == slot) = none := by
        rw [List.find?_eq_none]
        intro w hw
        have hlt := hm.past w hw
        simp only [Bool.and_eq_true, beq_iff_eq, not_and]
        omega
      simp only [Chronicle.contentAt, hnone]
      rw [List.getElem?_map, hf, Option.map_some, Option.map_some, contentOf_zeroOf hafter]

theorem collect (hm : h.Matches c) (hh : h.WellFormed) (hspace : h.collect.2.WithinSpace) : h.collect.2.Matches c := by
  have hafter := hh.collect hspace
  constructor
  case births =>
    rw [hm.births]
    simp only [Heap.collect, List.map_map]
    rfl
  case past =>
    intro w hw
    simp only [Heap.collect, List.length_map]
    exact hm.past w hw
  case names =>
    intro handle
    have hget : h.collect.2.handles.get? handle = (h.handles.get? handle).map h.relocate :=
      HandleTable.Valid.get?_mapSlots (fun a ha => hh.relocate_eq_null_iff hspace (hh.handles_live a ha)) handle
    rw [hm.names]
    simp only [numberOf?, hget]
    cases hold : h.handles.get? handle with
    | none => rfl
    | some a =>
      obtain ⟨n, hn⟩ := exists_number?_iff.2 (hh.isLive_of_get? hold)
      rw [Option.map_some, Option.bind_some, Option.bind_some, hn, hh.number?_relocate hspace hn]
  case contents =>
    intro n o slot f ho hf
    simp only [Heap.collect] at ho
    rw [List.getElem?_map, Option.map_eq_some_iff] at ho
    obtain ⟨p, hp, rfl⟩ := ho
    rw [← hm.contents n p slot f hp hf]
    simp only [List.getElem?_map, Option.map_map]
    cases hv : p.values[slot]? with
    | none => rfl
    | some v =>
      rw [Option.map_some, Option.map_some]
      congr 1
      cases v with
      | int | long => rfl
      | ref a =>
        simp only [Function.comp, forwardValue, contentOf]
        rcases hh.references p (List.mem_of_getElem? hp) a (List.mem_of_getElem? hv) with rfl | hlive
        · have hnull : forward (moves h.settings h.frontier h.objects) .null = .null := hh.relocate_null
          rw [hnull, hh.number?_null, hafter.number?_null]
        · obtain ⟨m, hm⟩ := exists_number?_iff.2 hlive
          rw [hm]
          exact congrArg Content.ref (hh.number?_relocate hspace hm)

theorem withHandle (hm : h.Matches c) (hh : h.WellFormed) (hroom : h.handles.slots.size < 4294967296) {a : Address}
    {n : Nat} (hn : h.number? a = some n) :
    (h.withHandle a).Matches { c with names := ((h.handles.insert a).1, n) :: c.names } :=
  hm.withHandles (hm.lookup_insert hh hroom (hh.ne_null_of_isLive (exists_number?_iff.1 ⟨n, hn⟩)) hn fun _ _ h => h)

theorem lookup_filter_of_not_mem {names : List (Handle × Nat)} {handles : List Handle} {handle : Handle}
    (h : handle ∉ handles) : (names.filter fun entry => entry.1 ∉ handles).lookup handle = names.lookup handle := by
  induction names with
  | nil => rfl
  | cons entry rest ih =>
    by_cases heq : handle = entry.1
    · rw [List.filter_cons_of_pos (by simpa using heq ▸ h), List.lookup_cons, List.lookup_cons, heq, beq_self_eq_true]
    · have hskip : (entry :: rest).lookup handle = rest.lookup handle := by
        rw [List.lookup_cons, beq_false_of_ne heq]
      rw [hskip, ← ih, List.filter_cons]
      split
      · rw [List.lookup_cons, beq_false_of_ne heq]
      · rfl

theorem release (hm : h.Matches c) (handles : List Handle) :
    (h.release handles).2.Matches { c with names := c.names.filter fun entry => entry.1 ∉ handles } := by
  refine hm.withHandles fun handle => ?_
  by_cases hgone : handle ∈ handles
  · rw [HandleTable.Valid.get?_releaseAll_of_mem hgone, Option.bind_none, List.lookup_eq_none_iff]
    intro entry hentry
    have hkept : entry.1 ∉ handles := by simpa using (List.mem_filter.1 hentry).2
    exact bne_iff_ne.2 fun heq => hkept (heq ▸ hgone)
  · rw [HandleTable.Valid.get?_releaseAll_of_not_mem hgone, lookup_filter_of_not_mem hgone]
    exact hm.names handle

end Matches

/-! ### Runs -/

theorem created_matches {id : HeapId} {settings : Settings} {h : Heap} (hcreate : create id settings = .ok h) :
    h.Matches .empty := by
  obtain ⟨-, rfl⟩ := create_eq_ok_iff.1 hcreate
  refine ⟨rfl, ?_, fun handle => ?_, ?_⟩
  · simp [Chronicle.empty]
  · simp [Chronicle.empty, numberOf?, HandleTable.get?, HandleTable.empty]
  · simp

/-- What an operation does to the heap is what is recorded of it. -/
theorem Matches.next {h : Heap} {c : Chronicle} (hm : h.Matches c) (hh : h.WellFormed)
    (hroom : h.handles.slots.size < 4294967296) (operation : Operation) (hspace : (h.perform operation).2.WithinSpace) :
    (h.perform operation).2.Matches (c.next h operation) := by
  cases operation with
  | define classInfo => exact ⟨hm.births, hm.past, hm.names, hm.contents⟩
  | allocate classId =>
    simp only [Heap.perform, Chronicle.next, allocate] at hspace ⊢
    cases hclass : h.classes[classId]? with
    | none => exact hm
    | some classInfo =>
      rw [hclass] at hspace
      exact hm.instantiate hh classInfo hspace hroom
  | store holder field value =>
    simp only [Heap.perform, Chronicle.next]
    rcases hm.store_cases hh holder field value with ⟨n, o, slot, f, v, ho, -, -, hstore, hwrite⟩ | ⟨⟨e, hstore⟩, hwrite⟩
    · rw [hstore, hwrite]
      exact hm.setValue hh ho v
    · rw [hstore, hwrite]
      exact hm
  | collect => exact hm.collect hh hspace
  | newHandle a =>
    simp only [Heap.perform, Chronicle.next]
    cases hnew : h.newHandle a with
    | error e => cases h.number? a <;> exact hm
    | ok made =>
      obtain ⟨handle, heap⟩ := made
      obtain ⟨hlive, rfl, rfl⟩ := newHandle_eq_ok_iff.1 hnew
      obtain ⟨n, hn⟩ := exists_number?_iff.2 hlive
      rw [hn]
      exact hm.withHandle hh hroom hn
  | release handles => exact hm.release handles

theorem Recorded.matches {h : Heap} {c : Chronicle} (hr : h.Recorded c) :
    h.WellFormed ∧ h.Matches c ∧ h.handles.slots.size < 4294967296 := by
  induction hr with
  | created hcreate =>
    refine ⟨create_wellFormed hcreate, created_matches hcreate, ?_⟩
    obtain ⟨-, rfl⟩ := create_eq_ok_iff.1 hcreate
    show (0 : Nat) < 4294967296
    decide
  | performed operation _ hspace hroom ih =>
    obtain ⟨hh, hm, hbefore⟩ := ih
    exact ⟨hh.change (perform_change _ operation) hspace, hm.next hh hbefore operation hspace, hroom⟩

/-- A heap is at every moment as its chronicle says. -/
theorem told_of_recorded {h : Heap} {c : Chronicle} (hr : h.Recorded c) : h.Told c := by
  obtain ⟨hh, hm, -⟩ := hr.matches
  have hlength : h.objects.length = c.births.length := by rw [hm.births, List.length_map]
  constructor
  case count => exact hlength
  case object =>
    intro n birth hbirth
    rw [hm.births, List.getElem?_map, Option.map_eq_some_iff] at hbirth
    obtain ⟨o, ho, rfl⟩ := hbirth
    have hmem := List.mem_of_getElem? ho
    have hobject := hh.object_eq_ok_iff.2 ⟨hmem, rfl⟩
    have hnumber := (hh.number?_eq_some_iff (a := o.address)).2 ⟨o, ho, rfl⟩
    refine ⟨o.address, (addressOf?_eq_some_iff hh).2 hnumber, hnumber, ?_, ?_, fun slot f hf => ?_⟩
    · simp only [classOf, hobject]
      rfl
    · simp only [hashOf, hobject]
      rfl
    · obtain ⟨v, hv, hcontent⟩ := Option.map_eq_some_iff.1 (hm.contents n o slot.toNat f ho hf)
      refine ⟨v, Except.bind_eq_ok_iff.2 ⟨o, hobject, by rw [hv]⟩, ?_⟩
      rw [← hcontent]
      exact Stands.of_contentOf hh fun a ha => hh.references o hmem a (ha ▸ List.mem_of_getElem? hv)
  case named =>
    intro handle n hname
    rw [hm.names] at hname
    obtain ⟨a, hget, hn⟩ := Option.bind_eq_some_iff.1 hname
    exact ⟨a, (addressOf?_eq_some_iff hh).2 hn, resolve_eq_ok_iff.2 hget⟩
  case nameless =>
    intro handle hname
    rw [hm.names] at hname
    simp only [resolve]
    cases hget : h.handles.get? handle with
    | none => rfl
    | some a =>
      obtain ⟨n, hn⟩ := hh.exists_numberOf? hget
      rw [hname] at hn
      simp at hn
  case store =>
    intro holder field value
    simp only [Heap.perform]
    rcases hm.store_cases hh holder field value with ⟨n, o, slot, f, v, -, -, -, hstore, hwrite⟩ | ⟨⟨e, hstore⟩, hwrite⟩
    · simp [hstore, hwrite]
    · simp [hstore, hwrite]
  case collect => exact congrArg Answer.count hlength

/-- Two objects that refer to each other, the second through a handle of its own that is given back and handed out again for the first. Both were moved twice, and a store through the handle that changed hands went to the first. -/
theorem told_of_reused_handle : ∃ h c, Recorded h c ∧ c.births.length = 2 ∧ c.writes.length = 3 ∧ Told h c := by
  have hcreated := @Recorded.created 0 .default _ rfl
  have hdefined := hcreated.performed
    (.define ⟨"p/Node", [.ofSignature "next" "Lp/Node;", .ofSignature "n" "I"], false⟩) (by decide) (by decide)
  have hfirst := hdefined.performed (.allocate 0) (by decide +kernel) (by decide +kernel)
  have hsecond := hfirst.performed (.allocate 0) (by decide +kernel) (by decide +kernel)
  have hlinked := hsecond.performed (.store ⟨0⟩ "next" (.ref ⟨1⟩)) (by decide +kernel) (by decide +kernel)
  have hcycle := hlinked.performed (.store ⟨1⟩ "next" (.ref ⟨0⟩)) (by decide +kernel) (by decide +kernel)
  have hreleased := hcycle.performed (.release [⟨1⟩, ⟨1⟩]) (by decide +kernel) (by decide +kernel)
  have hmoved := hreleased.performed .collect (by decide +kernel) (by decide +kernel)
  have hrefused := hmoved.performed (.newHandle ⟨0x1000⟩) (by decide +kernel) (by decide +kernel)
  have hbound := hrefused.performed (.newHandle ⟨0x1060⟩) (by decide +kernel) (by decide +kernel)
  have hstored := hbound.performed (.store ⟨1⟩ "n" (.int 5)) (by decide +kernel) (by decide +kernel)
  have hfailed := hstored.performed (.store ⟨0⟩ "n" .null) (by decide +kernel) (by decide +kernel)
  have hagain := hfailed.performed .collect (by decide +kernel) (by decide +kernel)
  exact ⟨_, _, hagain, by decide +kernel, by decide +kernel, told_of_recorded hagain⟩

end Heap

end KnownObjects
