import KnownObjects.Proofs.Heap.Layout

/-!
# The kinds of values that fields hold

Three places look at a declaration to tell which kind of value a field holds: a new object is zeroed by the first character of each signature, a read asks for the reference flag, and a store compares the whole signature. For fields that are declared through their signatures the three agree, and then every field of every object holds a value of the kind that its declaration names, at every moment. `Typed` says so of a heap, as one equation between the kinds of the values of an object and those of its fields.

`KeepsKinds` gathers what follows for reads and stores: a read of a field fails only where the declaration says that it must, and a store is refused for its kind exactly when it would change the kind of what is there.
-/

namespace KnownObjects

inductive Kind where
  | int
  | long
  | ref
deriving DecidableEq

def Value.kind : Value → Kind
  | .int _ => .int
  | .long _ => .long
  | .ref _ => .ref

theorem Value.reference?_eq_none_iff (v : Value) : v.reference? = none ↔ v.kind ≠ .ref := by
  cases v <;> simp [reference?, kind]

def NewValue.kind : NewValue → Kind
  | .int _ => .int
  | .long _ => .long
  | .ref _ => .ref
  | .null => .ref

namespace Field

/-- A field that is declared by its signature, and may be final. No signature begins with `J` but `J` itself. -/
def Declared (f : Field) : Prop :=
  ∃ name signature, (kind? signature = some 'J' → signature = "J") ∧
    (f = ofSignature name signature ∨ f = (ofSignature name signature).immutable)

/-- The kind of value that a declaration names. -/
def holds (f : Field) : Kind :=
  if f.isReference then .ref else if f.signature = "J" then .long else .int

theorem holds_eq_ref_iff (f : Field) : f.holds = .ref ↔ f.isReference = true := by
  unfold holds
  split
  · simp [*]
  · split <;> simp [*]

theorem holds_eq_int_iff (f : Field) : f.holds = .int ↔ f.isReference = false ∧ f.signature ≠ "J" := by
  unfold holds
  split
  · simp [*]
  · split <;> simp [*]

namespace Declared

variable {f : Field}

theorem isReference_iff (hf : f.Declared) :
    f.isReference = true ↔ kind? f.signature = some 'L' ∨ kind? f.signature = some '[' := by
  obtain ⟨name, signature, -, rfl | rfl⟩ := hf
  · simp [ofSignature]
  · simp [ofSignature, immutable]

theorem signature_eq_iff (hf : f.Declared) : f.signature = "J" ↔ kind? f.signature = some 'J' := by
  constructor
  · intro hlong
    rw [hlong]
    rfl
  · obtain ⟨name, signature, hsyntax, rfl | rfl⟩ := hf
    · exact hsyntax
    · exact hsyntax

theorem signature_ne (hf : f.Declared) (href : f.isReference = true) : f.signature ≠ "J" := by
  intro hlong
  have hkind := hf.signature_eq_iff.1 hlong
  rcases hf.isReference_iff.1 href with hobject | harray
  · rw [hkind] at hobject
    exact absurd hobject (by decide)
  · rw [hkind] at harray
    exact absurd harray (by decide)

theorem holds_eq_long_iff (hf : f.Declared) : f.holds = .long ↔ f.signature = "J" := by
  unfold holds
  split
  · rename_i href
    simp [hf.signature_ne href]
  · split <;> simp [*]

/-- The check that a store makes. -/
theorem fits_iff (hf : f.Declared) (v : Value) : v.fits f = true ↔ v.kind = f.holds := by
  rw [@eq_comm _ v.kind]
  cases v with
  | ref target => exact (holds_eq_ref_iff f).symm
  | long n =>
    rw [Value.kind, hf.holds_eq_long_iff]
    simp [Value.fits]
  | int n =>
    rw [Value.kind, holds_eq_int_iff]
    simp [Value.fits]

/-- What a new object starts with. -/
theorem kind_zeroOf (hf : f.Declared) : (Value.zeroOf f).kind = f.holds := by
  have href := hf.isReference_iff
  have hlong := hf.signature_eq_iff
  unfold Value.zeroOf
  split
  · rename_i hkind
    exact (hf.holds_eq_long_iff.2 (hlong.2 hkind)).symm
  · rename_i hkind
    exact ((holds_eq_ref_iff f).2 (href.2 (Or.inl hkind))).symm
  · rename_i hkind
    exact ((holds_eq_ref_iff f).2 (href.2 (Or.inr hkind))).symm
  · rename_i hnotLong hnotObject hnotArray
    refine ((holds_eq_int_iff f).2 ⟨?_, fun hsignature => hnotLong (hlong.1 hsignature)⟩).symm
    rw [Bool.eq_false_iff]
    intro hreference
    rcases href.1 hreference with hobject | harray
    · exact hnotObject hobject
    · exact hnotArray harray

end Declared

end Field

namespace Heap

theorem kind_forwardValue (moves : List (Address × Address)) (v : Value) : (forwardValue moves v).kind = v.kind := by
  cases v <;> rfl

theorem kind_of_valueOf {h : Heap} {new : NewValue} {v : Value} (hvalue : h.valueOf new = .ok v) :
    v.kind = new.kind := by
  cases new with
  | int n | long n | null =>
    rw [valueOf, Except.ok.injEq] at hvalue
    rw [← hvalue]
    rfl
  | ref target =>
    obtain ⟨a, -, hmade⟩ := Except.bind_eq_ok_iff.1 hvalue
    rw [← Except.ok.inj hmade]
    rfl

/-- What a store does once its handles lead somewhere and the class of the holder has the field. -/
theorem store_of_slotOf? {h : Heap} {holder : Handle} {name : String} {new : NewValue} {a : Address} {o : Object} {v : Value}
    {slot : Nat} {f : Field} (hholder : h.resolve holder = .ok a) (hobject : h.object a = .ok o)
    (hvalue : h.valueOf new = .ok v) (hslot : o.classInfo.slotOf? name = some slot)
    (hfield : o.classInfo.fields[slot]? = some f) :
    h.store holder name new =
      if v.fits f then .ok (h.setValue a slot v) else .error (.typeMismatch f.name f.signature) := by
  simp only [store, hholder, hobject, hvalue, bind, Except.bind, slotOf, hslot, hfield]
  rfl

/-- Every field of every object holds a value of the kind that its declaration names. -/
def Typed (h : Heap) : Prop :=
  ∀ o ∈ h.objects, o.values.map Value.kind = o.classInfo.fields.map Field.holds

namespace Typed

variable {h : Heap}

theorem instantiate (hh : h.Typed) {c : ClassInfo} (hc : ∀ f ∈ c.fields, f.Declared) :
    (h.instantiate c).2.Typed := by
  intro o ho
  rcases mem_objects_instantiate ho with ho | ⟨-, hclass, hvalues⟩
  · exact hh o ho
  · rw [hclass, hvalues, List.map_map]
    exact List.map_congr_left fun f hf => (hc f hf).kind_zeroOf

/-- A value of the right kind in one field of one object. No other object lies at its address. -/
theorem setValue (hh : h.Typed) (hformed : h.WellFormed) {a : Address} {o : Object} (hobject : h.object a = .ok o)
    {slot : Nat} {f : Field} (hfield : o.classInfo.fields[slot]? = some f) {v : Value} (hv : v.kind = f.holds) :
    (h.setValue a slot v).Typed := by
  obtain ⟨ho, rfl⟩ := hformed.object_eq_ok_iff.1 hobject
  intro q hq
  obtain ⟨p, hp, rfl⟩ := List.mem_map.1 hq
  split
  · rename_i haddress
    obtain rfl : p = o := List.inj_on_of_nodup_map hformed.distinct hp ho (by simpa using haddress)
    have hsame : (p.classInfo.fields.map Field.holds)[slot]? = some v.kind := by
      rw [List.getElem?_map, hfield, hv]
      rfl
    obtain ⟨hlt, hheld⟩ := List.getElem?_eq_some_iff.1 hsame
    rw [List.map_set, hh p hp, ← hheld]
    exact List.set_getElem_self hlt
  · exact hh p hp

theorem collect (hh : h.Typed) : h.collect.2.Typed := by
  intro o ho
  obtain ⟨p, hp, rfl⟩ := List.mem_map.1 ho
  rw [List.map_map, ← hh p hp]
  exact List.map_congr_left fun v _ => kind_forwardValue _ v

/-- Each operation keeps the kinds, so long as the classes of all objects, new ones included, are declared by signatures. -/
theorem perform (hh : h.Typed) (hformed : h.WellFormed) (hclassed : h.Classed)
    (hdeclared : ∀ c ∈ h.classes, ∀ f ∈ c.fields, f.Declared) (operation : Operation) :
    (h.perform operation).2.Typed := by
  cases operation with
  | define c => exact hh
  | allocate classId =>
    simp only [Heap.perform, allocate]
    cases hclass : h.classes[classId]? with
    | none => exact hh
    | some c => exact hh.instantiate (hdeclared c (List.mem_of_getElem? hclass))
  | store holder field value =>
    simp only [Heap.perform]
    cases hstore : h.store holder field value with
    | error e => exact hh
    | ok heap =>
      obtain ⟨a, o, slot, f, v, -, hobject, -, -, hfield, hfits, rfl⟩ := exists_of_store_eq_ok hstore
      have ho := (hformed.object_eq_ok_iff.1 hobject).1
      have hf := hdeclared _ (hclassed o ho) f (List.mem_of_getElem? hfield)
      exact hh.setValue hformed hobject hfield ((hf.fits_iff v).1 hfits)
  | collect => exact hh.collect
  | newHandle object =>
    simp only [Heap.perform]
    cases hnew : h.newHandle object with
    | error e => exact hh
    | ok made =>
      obtain ⟨-, -, hheap⟩ := newHandle_eq_ok_iff.1 hnew
      rw [hheap]
      exact hh
  | release handles => exact hh

end Typed

/-- Classes are never removed. -/
theorem Change.classes_initial {h heap : Heap} {handles : List Handle} (hchange : Change h handles heap) :
    h.classes <+: heap.classes := by
  cases hchange with
  | defined c => exact List.prefix_append _ _
  | none | allocated | stored | collected | bound | released => exact List.prefix_rfl

theorem Reached.typed {h : Heap} (hreached : h.Reached) (hdeclared : ∀ c ∈ h.classes, ∀ f ∈ c.fields, f.Declared) :
    h.Typed := by
  induction hreached with
  | created hcreate =>
    obtain ⟨-, rfl⟩ := create_eq_ok_iff.1 hcreate
    exact fun o ho => nomatch ho
  | @performed h operation hbefore _ ih =>
    have hearlier : ∀ c ∈ h.classes, ∀ f ∈ c.fields, f.Declared := fun c hc =>
      hdeclared c ((perform_change h operation).classes_initial.subset hc)
    exact (ih hearlier).perform hbefore.wellFormed hbefore.laidOut.2.1 hearlier operation

/-! ### Reading and writing -/

/-- What the kinds of fields mean for those who read and write a heap. -/
structure KeepsKinds (h : Heap) : Prop where
  held : ∀ o ∈ h.objects, o.values.length = o.classInfo.fields.length ∧
    ∀ (slot : Nat) (f : Field) (v : Value), o.classInfo.fields[slot]? = some f → o.values[slot]? = some v →
      (v.kind = .ref ↔ f.isReference = true) ∧ (v.kind = .long ↔ f.signature = "J") ∧
      (v.kind = .int ↔ f.isReference = false ∧ f.signature ≠ "J")
  /-- A field beyond the last cannot be read, nor one that holds a number; any other gives null or an object. -/
  reads : ∀ holder a, h.resolve holder = .ok a → ∃ o, h.object a = .ok o ∧ ∀ slot : UInt64,
    (h.read (.field holder slot) = .error (.fieldOutOfRange a slot) ↔ o.classInfo.fields.length ≤ slot.toNat) ∧
    (h.read (.field holder slot) = .error (.notAReference (.field holder slot)) ↔
      ∃ f, o.classInfo.fields[slot.toNat]? = some f ∧ f.isReference = false) ∧
    (∀ f, o.classInfo.fields[slot.toNat]? = some f → f.isReference = true →
      ∃ target, h.read (.field holder slot) = .ok target ∧ (target = .null ∨ h.isLive target = true))
  /-- Only the first field of a name can be stored in, and only what is of the kind of the value that it has. -/
  stores : ∀ holder name new a o v, h.resolve holder = .ok a → h.object a = .ok o → h.valueOf new = .ok v →
    name ∈ o.classInfo.fields.map Field.name → ∃ slot f old,
      o.classInfo.slotOf? name = some slot ∧ o.classInfo.fields[slot]? = some f ∧ o.values[slot]? = some old ∧
      (h.store holder name new = .error (.typeMismatch f.name f.signature) ↔ new.kind ≠ old.kind) ∧
      (new.kind = old.kind → h.store holder name new = .ok (h.setValue a slot v))

namespace Typed

variable {h : Heap}

theorem kind_eq (hh : h.Typed) {o : Object} (ho : o ∈ h.objects) {slot : Nat} {f : Field} {v : Value}
    (hfield : o.classInfo.fields[slot]? = some f) (hvalue : o.values[slot]? = some v) : v.kind = f.holds := by
  have hkinds := congrArg (·[slot]?) (hh o ho)
  simpa [List.getElem?_map, hfield, hvalue] using hkinds

theorem length_eq (hh : h.Typed) {o : Object} (ho : o ∈ h.objects) :
    o.values.length = o.classInfo.fields.length := by
  simpa using congrArg List.length (hh o ho)

/-- Where a field is declared, a value is held. -/
theorem exists_value (hh : h.Typed) {o : Object} (ho : o ∈ h.objects) {slot : Nat} {f : Field}
    (hfield : o.classInfo.fields[slot]? = some f) : ∃ v, o.values[slot]? = some v ∧ v.kind = f.holds := by
  have hlt : slot < o.values.length := hh.length_eq ho ▸ (List.getElem?_eq_some_iff.1 hfield).1
  have hvalue := List.getElem?_eq_getElem hlt
  exact ⟨_, hvalue, hh.kind_eq ho hfield hvalue⟩

end Typed

theorem read_field {h : Heap} {holder : Handle} {a : Address} {o : Object} (hholder : h.resolve holder = .ok a)
    (hobject : h.object a = .ok o) (slot : UInt64) :
    h.read (.field holder slot) =
      match o.values[slot.toNat]? with
      | none => .error (.fieldOutOfRange a slot)
      | some v => match v.reference? with
        | some target => .ok target
        | none => .error (.notAReference (.field holder slot)) := by
  simp only [read, fieldAt, hholder, hobject, bind, Except.bind]
  cases o.values[slot.toNat]? <;> rfl

namespace Typed

variable {h : Heap} {holder : Handle} {a : Address} {o : Object}

theorem read_of_beyond (hh : h.Typed) (ho : o ∈ h.objects) (hholder : h.resolve holder = .ok a)
    (hobject : h.object a = .ok o) {slot : UInt64} (hbeyond : o.classInfo.fields.length ≤ slot.toNat) :
    h.read (.field holder slot) = .error (.fieldOutOfRange a slot) := by
  rw [read_field hholder hobject, List.getElem?_eq_none (hh.length_eq ho ▸ hbeyond)]

theorem read_of_number (hh : h.Typed) (ho : o ∈ h.objects) (hholder : h.resolve holder = .ok a)
    (hobject : h.object a = .ok o) {slot : UInt64} {f : Field} (hfield : o.classInfo.fields[slot.toNat]? = some f)
    (hnumber : f.isReference = false) :
    h.read (.field holder slot) = .error (.notAReference (.field holder slot)) := by
  obtain ⟨v, hvalue, hkind⟩ := hh.exists_value ho hfield
  have hnone : v.reference? = none := by
    rw [v.reference?_eq_none_iff, hkind, Ne, Field.holds_eq_ref_iff, hnumber]
    exact Bool.false_ne_true
  rw [read_field hholder hobject, hvalue]
  simp only [hnone]

theorem exists_read_of_reference (hh : h.Typed) (ho : o ∈ h.objects) (hholder : h.resolve holder = .ok a)
    (hobject : h.object a = .ok o) {slot : UInt64} {f : Field} (hfield : o.classInfo.fields[slot.toNat]? = some f)
    (href : f.isReference = true) : ∃ target, h.read (.field holder slot) = .ok target := by
  obtain ⟨v, hvalue, hkind⟩ := hh.exists_value ho hfield
  rw [read_field hholder hobject, hvalue]
  cases hreference : v.reference? with
  | none =>
    rw [v.reference?_eq_none_iff, hkind, Ne, Field.holds_eq_ref_iff] at hreference
    exact absurd href hreference
  | some target => exact ⟨target, by simp only [hreference]⟩

end Typed

/-- The first field of a name that a class declares. -/
theorem exists_slotOf? {c : ClassInfo} {name : String} (hname : name ∈ c.fields.map Field.name) :
    ∃ slot f, c.slotOf? name = some slot ∧ c.fields[slot]? = some f := by
  obtain ⟨g, hg, rfl⟩ := List.mem_map.1 hname
  cases hslot : c.slotOf? g.name with
  | none => exact absurd (List.findIdx?_eq_none_iff.1 hslot g hg) (by simp)
  | some slot =>
    have hlt := (List.findIdx?_eq_some_iff_getElem.1 hslot).1
    exact ⟨slot, _, rfl, List.getElem?_eq_getElem hlt⟩

/-- The main statement about kinds: they are kept by whatever happens to a heap, and reads and stores go by them. -/
theorem keepsKinds_of_reached {h : Heap} (hreached : h.Reached)
    (hdeclared : ∀ c ∈ h.classes, ∀ f ∈ c.fields, f.Declared) : h.KeepsKinds := by
  have hformed := hreached.wellFormed
  have htyped := hreached.typed hdeclared
  have hdeclaredAt : ∀ o ∈ h.objects, ∀ (slot : Nat) (f : Field), o.classInfo.fields[slot]? = some f → f.Declared :=
    fun o ho slot f hf => hdeclared _ (hreached.laidOut.2.1 o ho) f (List.mem_of_getElem? hf)
  constructor
  case held =>
    refine fun o ho => ⟨htyped.length_eq ho, fun slot f v hf hv => ?_⟩
    rw [htyped.kind_eq ho hf hv]
    exact ⟨f.holds_eq_ref_iff, (hdeclaredAt o ho slot f hf).holds_eq_long_iff, f.holds_eq_int_iff⟩
  case reads =>
    intro holder a hholder
    obtain ⟨o, ho, -, hobject⟩ := hformed.exists_object (hformed.isLive_of_resolve hholder)
    refine ⟨o, hobject, fun slot => ?_⟩
    cases hf : o.classInfo.fields[slot.toNat]? with
    | none =>
      have hbeyond := List.getElem?_eq_none_iff.1 hf
      simp [htyped.read_of_beyond ho hholder hobject hbeyond, hbeyond]
    | some f =>
      have hwithin := (List.getElem?_eq_some_iff.1 hf).1
      cases href : f.isReference with
      | false => simp [htyped.read_of_number ho hholder hobject hf href, href, hwithin]
      | true =>
        obtain ⟨target, hread⟩ := htyped.exists_read_of_reference ho hholder hobject hf href
        simp [hread, href, hwithin, hformed.isLive_of_read hread]
  case stores =>
    intro holder name new a o v hholder hobject hvalue hname
    have ho := (hformed.object_eq_ok_iff.1 hobject).1
    obtain ⟨slot, f, hslot, hf⟩ := exists_slotOf? hname
    obtain ⟨old, hold, hkind⟩ := htyped.exists_value ho hf
    have hfits : v.fits f = true ↔ new.kind = old.kind := by
      rw [(hdeclaredAt o ho slot f hf).fits_iff, kind_of_valueOf hvalue, hkind]
    refine ⟨slot, f, old, hslot, hf, hold, ?_⟩
    rw [store_of_slotOf? hholder hobject hvalue hslot hf]
    by_cases hsame : new.kind = old.kind
    · simp [hfits.2 hsame, hsame]
    · simp [hfits, hsame]

/-- A store of a number into a reference, and of a small number into a long one, are refused; the others change nothing but the values. -/
theorem keepsKinds_after_refused_stores : ∃ h : Heap, h.Reached ∧
    (∀ c ∈ h.classes, ∀ f ∈ c.fields, f.Declared) ∧ h.objects.length = 2 ∧ h.KeepsKinds := by
  have hcreated := @Reached.created 0 .default _ rfl
  have hdefined := hcreated.performed (.define ⟨"p/Node", [.ofSignature "next" "Lp/Node;",
    (Field.ofSignature "n" "J").immutable, .ofSignature "tag" "I"], false⟩) (by decide)
  have hfirst := hdefined.performed (.allocate 0) (by decide +kernel)
  have hsecond := hfirst.performed (.allocate 0) (by decide +kernel)
  have hlinked := hsecond.performed (.store ⟨0⟩ "next" (.ref ⟨1⟩)) (by decide +kernel)
  have hrefused := hlinked.performed (.store ⟨1⟩ "next" (.int 4)) (by decide +kernel)
  have hshort := hrefused.performed (.store ⟨1⟩ "n" (.int 4)) (by decide +kernel)
  have hlong := hshort.performed (.store ⟨1⟩ "n" (.long 4)) (by decide +kernel)
  have hmoved := hlong.performed .collect (by decide +kernel)
  have hdeclared : ∀ c ∈ ([⟨"p/Node", [.ofSignature "next" "Lp/Node;", (Field.ofSignature "n" "J").immutable,
      .ofSignature "tag" "I"], false⟩] : List ClassInfo), ∀ f ∈ c.fields, f.Declared := by
    intro c hc f hf
    rw [List.mem_singleton] at hc
    subst hc
    simp only [List.mem_cons, List.not_mem_nil, or_false] at hf
    rcases hf with rfl | rfl | rfl
    · exact ⟨_, _, by decide, Or.inl rfl⟩
    · exact ⟨_, _, by decide, Or.inr rfl⟩
    · exact ⟨_, _, by decide, Or.inl rfl⟩
  exact ⟨_, hmoved, hdeclared, by decide +kernel, keepsKinds_of_reached hmoved hdeclared⟩

end Heap

end KnownObjects
