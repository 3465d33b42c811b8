import KnownObjects.Proofs.Dump.Walk
import KnownObjects.Proofs.Table.Service

/-!
# What a graph shows of a heap

Which objects a table knows, and which fields of theirs lead to another known object, is said here of table and heap alone: `Site.Known` and `Site.Leads`. If all handles of the table lead to objects, the graph can be read and shows just that. An object that lies behind several handles goes by the lowest of its indices.
-/

namespace KnownObjects

def Heap.LeadsTo (h : Heap) (handle : Handle) (o : Object) : Prop :=
  h.resolve handle = .ok o.address ∧ h.object o.address = .ok o

namespace Site

open Dump

def Known (s : Site) (i : Index) (o : Object) : Prop :=
  ∃ h, s.table.slots.get? i = some (.ref h) ∧ s.heap.LeadsTo h o

/-- The lowest index at which there is the object of an address. -/
def Named (s : Site) (a : Address) (i : Index) : Prop :=
  (∃ o, s.Known i o ∧ o.address = a) ∧ ∀ j o, s.Known j o → o.address = a → i ≤ j

/-- A reference field of an object that is not an array, and the address in it. -/
def Holds (s : Site) (source : Origin) (f : Field) (a : Address) : Prop :=
  ∃ o, s.Known source.owner o ∧ o.classInfo.isArray = false ∧ o.classInfo.fields[source.slot]? = some f ∧
    f.isReference = true ∧ o.values[source.slot]? = some (.ref a)

/-- A field through which a forest goes: it leads to a known object, and is final unless mutable fields count as well. -/
def Leads (s : Site) (mutable : Bool) (source : Origin) (e : Edge) : Prop :=
  ∃ f a, s.Holds source f a ∧ (f.isFinal || mutable) = true ∧ s.Named a e.target ∧ e.field = f.name ∧
    e.isFinal = f.isFinal

/-- No handle of the table has been given back. -/
def Intact (s : Site) : Prop := ∀ h ∈ s.table.slots.handles, ∃ a, s.heap.resolve h = .ok a

instance (s : Site) : Decidable s.Intact := by
  apply decidable_of_iff (∀ h ∈ s.table.slots.handles, (s.heap.resolve h).isOk = true)
  refine forall_congr' fun h => imp_congr_right fun _ => ?_
  cases s.heap.resolve h with
  | ok a => simp [Except.isOk, Except.toBool]
  | error e => simp [Except.isOk, Except.toBool]

/-- All handles of the table lead to objects, which these are in order. -/
structure Shows (s : Site) (objects : List Object) : Prop where
  fits : s.table.slots.Fits
  placed : ∀ o ∈ objects, o.address ≠ .null
  behind : List.Forall₂ s.heap.LeadsTo s.table.slots.handles objects

end Site

theorem Heap.LeadsTo.unique {h : Heap} {handle : Handle} {o p : Object} (ho : h.LeadsTo handle o)
    (hp : h.LeadsTo handle p) : o = p := by
  have haddress : o.address = p.address := Except.ok.inj (ho.1.symm.trans hp.1)
  have hobject := ho.2
  rw [haddress] at hobject
  exact Except.ok.inj (hobject.symm.trans hp.2)

theorem Heap.WellFormed.exists_leadsTo {h : Heap} (hh : h.WellFormed) {handle : Handle} {a : Address}
    (hresolve : h.resolve handle = .ok a) : ∃ o, h.LeadsTo handle o := by
  obtain ⟨o, -, rfl, hobject⟩ := hh.exists_object (hh.isLive_of_resolve hresolve)
  exact ⟨o, hresolve, hobject⟩

private theorem exists_forall₂ {α β : Type} {R : α → β → Prop} {P : β → Prop} {l : List α}
    (h : ∀ x ∈ l, ∃ y, R x y ∧ P y) : ∃ r, List.Forall₂ R l r ∧ ∀ y ∈ r, P y := by
  induction l with
  | nil => exact ⟨[], .nil, by simp⟩
  | cons x l ih =>
    obtain ⟨hx, hl⟩ := List.forall_mem_cons.1 h
    obtain ⟨y, hy, hP⟩ := hx
    obtain ⟨r, hr, hall⟩ := ih hl
    exact ⟨y :: r, .cons hy hr, List.forall_mem_cons.2 ⟨hP, hall⟩⟩

/-- On a well-formed heap all handles lead to objects if they resolve at all. -/
theorem Heap.WellFormed.exists_shows {s : Site} (hheap : s.heap.WellFormed) (hfits : s.table.slots.Fits)
    (hintact : s.Intact) : ∃ objects, s.Shows objects := by
  have hleads : ∀ h ∈ s.table.slots.handles, ∃ o, s.heap.LeadsTo h o ∧ o.address ≠ .null := by
    intro h hh
    obtain ⟨a, ha⟩ := hintact h hh
    obtain ⟨o, ho⟩ := hheap.exists_leadsTo ha
    exact ⟨o, ho, hheap.ne_null_of_isLive (hheap.isLive_of_resolve ho.1)⟩
  obtain ⟨objects, hbehind, hplaced⟩ := exists_forall₂ hleads
  exact ⟨objects, hfits, hplaced, hbehind⟩

private theorem mapM_eq_ok {ε α β : Type} {f : α → Except ε β} {l : List α} {r : List β}
    (h : List.Forall₂ (fun x y => f x = .ok y) l r) : l.mapM f = .ok r := by
  induction h with
  | nil => rfl
  | cons hx _ ih =>
    rw [List.mapM_cons, hx, ih]
    rfl

namespace Dump

def placeOf? (objects : List Object) (a : Address) : Option Index :=
  (objects.findIdx? fun o => o.address == a).map fun k => .ofNat (k + 1)

def objectAt? (objects : List Object) (i : Index) : Option Object :=
  match i.toNat with
  | 0 => none
  | k + 1 => objects[k]?

def edgeOf? (objects : List Object) (entry : Field × Value) : Option Edge :=
  if entry.1.isReference then
    (entry.2.reference?.bind (placeOf? objects)).map fun target => ⟨entry.1.name, entry.1.isFinal, target⟩
  else none

/-- The fields that an object shows, with their values. -/
def shownOf (o : Object) : List (Field × Value) := if o.classInfo.isArray then [] else o.classInfo.fields.zip o.values

def nodeOf (objects : List Object) (o : Object) : Node where
  address := o.address
  hash := o.hash
  className := o.classInfo.simpleName
  numbers := (shownOf o).filterMap number?
  edges := (shownOf o).filterMap (edgeOf? objects)

def graphOf (objects : List Object) : Graph := ⟨objects.map (nodeOf objects)⟩

/-- The edges that a forest follows from an object, with the slots of their fields. -/
def arrowsFrom (objects : List Object) (mutable : Bool) (o : Object) : List (Edge × Nat) :=
  (shownOf o).zipIdx.filterMap fun entry =>
    ((edgeOf? objects entry.1).filter fun e => e.isFinal || mutable).map fun e => (e, entry.2)

def arrowsOf (objects : List Object) (mutable : Bool) (i : Index) : List (Edge × Nat) :=
  ((objectAt? objects i).map (arrowsFrom objects mutable)).getD []

theorem objectAt?_eq_some_iff {objects : List Object} {i : Index} {o : Object} :
    objectAt? objects i = some o ↔ ∃ k, i.toNat = k + 1 ∧ objects[k]? = some o := by
  simp only [objectAt?]
  cases i.toNat with
  | zero => simp
  | succ k => simp

@[simp] theorem node?_graphOf (objects : List Object) (i : Index) :
    (graphOf objects).node? i = (objectAt? objects i).map (nodeOf objects) := by
  simp only [Graph.node?, objectAt?, graphOf]
  cases i.toNat with
  | zero => rfl
  | succ k => exact List.getElem?_map

end Dump

namespace Site.Shows

open Dump

variable {s : Site} {objects : List Object}

theorem length_eq (hs : s.Shows objects) : s.table.slots.handles.length = objects.length := hs.behind.length_eq

theorem known_iff (hs : s.Shows objects) {i : Index} {o : Object} : s.Known i o ↔ objectAt? objects i = some o := by
  obtain ⟨hlength, hbehind⟩ := List.forall₂_iff_get.1 hs.behind
  rw [objectAt?_eq_some_iff]
  constructor
  · rintro ⟨h, hget, hleads⟩
    obtain ⟨k, hi, hk⟩ := hs.fits.get?_eq_ref_iff.1 hget
    obtain ⟨hlt, rfl⟩ := List.getElem?_eq_some_iff.1 hk
    refine ⟨k, hi, List.getElem?_eq_some_iff.2 ⟨hlength ▸ hlt, ?_⟩⟩
    exact (hbehind k hlt (hlength ▸ hlt)).unique hleads
  · rintro ⟨k, hi, hk⟩
    obtain ⟨hlt, rfl⟩ := List.getElem?_eq_some_iff.1 hk
    refine ⟨_, hs.fits.get?_eq_ref_iff.2 ⟨k, hi, List.getElem?_eq_getElem (hlength ▸ hlt)⟩, ?_⟩
    exact hbehind k (hlength ▸ hlt) hlt

theorem find_eq (hs : s.Shows objects) (a : Address) : s.table.find s.heap a = .ok (placeOf? objects a) := by
  refine search_eq_findIdx? (hs.behind.imp fun h o hleads => ⟨o.address, hleads.1, ?_⟩) 1
  rw [beq_iff_eq]

theorem toNat_ofNat_succ (hs : s.Shows objects) {k : Nat} (hk : k < objects.length) :
    (Index.ofNat (k + 1)).toNat = k + 1 := by
  have hfits : s.table.slots.handles.length + 1 < 4294967295 := hs.fits
  rw [hs.length_eq] at hfits
  exact Index.toNat_ofNat (by omega)

theorem placeOf?_eq_some_iff (hs : s.Shows objects) {a : Address} {i : Index} :
    placeOf? objects a = some i ↔ s.Named a i := by
  simp only [placeOf?, Named]
  rw [Option.map_eq_some_iff]
  constructor
  · rintro ⟨k, hfind, rfl⟩
    obtain ⟨hk, haddress, hfirst⟩ := List.findIdx?_eq_some_iff_getElem.1 hfind
    have hnat := hs.toNat_ofNat_succ hk
    refine ⟨⟨objects[k], ?_, by simpa using haddress⟩, ?_⟩
    · rw [hs.known_iff, objectAt?_eq_some_iff]
      exact ⟨k, hnat, List.getElem?_eq_getElem hk⟩
    · intro j o hknown ho
      rw [hs.known_iff, objectAt?_eq_some_iff] at hknown
      obtain ⟨m, hj, hm⟩ := hknown
      obtain ⟨hlt, rfl⟩ := List.getElem?_eq_some_iff.1 hm
      show (Index.ofNat (k + 1)).toNat ≤ j.toNat
      rw [hnat, hj]
      by_contra hless
      exact hfirst m (by omega) (by simpa using ho)
  · rintro ⟨⟨o, hknown, ho⟩, hlowest⟩
    rw [hs.known_iff, objectAt?_eq_some_iff] at hknown
    obtain ⟨k, hi, hk⟩ := hknown
    obtain ⟨hlt, rfl⟩ := List.getElem?_eq_some_iff.1 hk
    refine ⟨k, List.findIdx?_eq_some_iff_getElem.2 ⟨hlt, by simpa using ho, ?_⟩, ?_⟩
    · intro m hm haddress
      have hle : i.toNat ≤ (Index.ofNat (m + 1)).toNat := by
        refine hlowest (.ofNat (m + 1)) objects[m] ?_ (by simpa using haddress)
        rw [hs.known_iff, objectAt?_eq_some_iff]
        exact ⟨m, hs.toNat_ofNat_succ (by omega), List.getElem?_eq_getElem (by omega)⟩
      rw [hs.toNat_ofNat_succ (by omega)] at hle
      omega
    · rw [← hi, Index.ofNat_toNat]

theorem target?_eq (hs : s.Shows objects) (v : Value) :
    target? s.heap s.table v = .ok (v.reference?.bind (placeOf? objects)) := by
  simp only [target?]
  cases v.reference? with
  | none => rfl
  | some a =>
    show (if a.isNull then .ok none else s.table.find s.heap a) = Except.ok (placeOf? objects a)
    by_cases hnull : a = .null
    · -- No object lies at null, so that a search would not find one either.
      subst hnull
      have hnone : objects.findIdx? (fun o => o.address == .null) = none := by
        rw [List.findIdx?_eq_none_iff]
        intro o ho
        rw [beq_eq_false_iff_ne]
        exact hs.placed o ho
      simp only [placeOf?]
      rw [if_pos (Address.isNull_iff.2 rfl), hnone, Option.map_none]
    · rw [if_neg (mt Address.isNull_iff.1 hnull), hs.find_eq]

theorem edges_eq (hs : s.Shows objects) (entries : List (Field × Value)) :
    edges s.heap s.table entries = .ok (entries.filterMap (edgeOf? objects)) := by
  induction entries with
  | nil => rfl
  | cons entry entries ih =>
    obtain ⟨f, v⟩ := entry
    cases href : f.isReference with
    | false =>
      have hnone : edgeOf? objects (f, v) = none := by simp [edgeOf?, href]
      rw [List.filterMap_cons_none hnone]
      simp only [edges]
      simp only [href, Bool.false_eq_true, if_false, ih, bind, Except.bind]
      rfl
    | true =>
      simp only [edges]
      simp only [href, if_true, hs.target?_eq, ih, bind, Except.bind]
      cases hplace : v.reference?.bind (placeOf? objects) with
      | none =>
        have hnone : edgeOf? objects (f, v) = none := by simp [edgeOf?, hplace]
        rw [List.filterMap_cons_none hnone]
        rfl
      | some target =>
        have hsome : edgeOf? objects (f, v) = some ⟨f.name, f.isFinal, target⟩ := by simp [edgeOf?, href, hplace]
        rw [List.filterMap_cons_some hsome]
        rfl

theorem node_eq (hs : s.Shows objects) {h : Handle} {o : Object} (hleads : s.heap.LeadsTo h o) :
    node s.heap s.table h = .ok (nodeOf objects o) := by
  simp only [node]
  simp only [hleads.1, hleads.2, hs.edges_eq, bind, Except.bind]
  rfl

theorem graph_eq (hs : s.Shows objects) : graph s.heap s.table = .ok (graphOf objects) := by
  have hnodes : s.table.slots.handles.mapM (node s.heap s.table) = .ok (objects.map (nodeOf objects)) := by
    apply mapM_eq_ok
    rw [List.forall₂_map_right_iff]
    exact hs.behind.imp fun h o hleads => hs.node_eq hleads
  simp only [graph]
  rw [hnodes]
  rfl

end Site.Shows

namespace Dump

/-- Marking each entry with its place changes nothing of what a filter leaves. -/
private theorem map_fst_filterMap_zipIdx {α β : Type} (f : α → Option β) (l : List α) (first : Nat) :
    ((l.zipIdx first).filterMap fun entry => (f entry.1).map fun y => (y, entry.2)).map Prod.fst = l.filterMap f := by
  induction l generalizing first with
  | nil => rfl
  | cons x l ih =>
    rw [List.zipIdx_cons]
    cases hx : f x with
    | none => rw [List.filterMap_cons_none hx, List.filterMap_cons_none (by simp [hx]), ih]
    | some y => rw [List.filterMap_cons_some hx, List.filterMap_cons_some (b := (y, first)) (by simp [hx]), List.map_cons, ih]

theorem map_fst_arrowsFrom (objects : List Object) (mutable : Bool) (o : Object) :
    (arrowsFrom objects mutable o).map Prod.fst = (nodeOf objects o).edges.filter fun e => e.isFinal || mutable := by
  simp only [arrowsFrom]
  rw [map_fst_filterMap_zipIdx fun entry => (edgeOf? objects entry).filter fun e => e.isFinal || mutable]
  exact (List.filter_filterMap ..).symm

theorem mem_arrowsFrom_iff {objects : List Object} {mutable : Bool} {o : Object} {e : Edge} {k : Nat} :
    (e, k) ∈ arrowsFrom objects mutable o ↔
      ∃ entry, (shownOf o)[k]? = some entry ∧ edgeOf? objects entry = some e ∧ (e.isFinal || mutable) = true := by
  simp only [arrowsFrom]
  rw [List.mem_filterMap]
  constructor
  · rintro ⟨⟨entry, m⟩, hentry, heq⟩
    obtain ⟨d, hd, hpair⟩ := Option.map_eq_some_iff.1 heq
    obtain ⟨rfl, rfl⟩ := Prod.mk.inj hpair
    obtain ⟨hedge, hfollowed⟩ := Option.filter_eq_some_iff.1 hd
    exact ⟨entry, List.mem_zipIdx_iff_getElem?.1 hentry, hedge, hfollowed⟩
  · rintro ⟨entry, hentry, hedge, hfollowed⟩
    refine ⟨(entry, k), List.mem_zipIdx_iff_getElem?.2 hentry, Option.map_eq_some_iff.2 ⟨e, ?_, rfl⟩⟩
    exact Option.filter_eq_some_iff.2 ⟨hedge, hfollowed⟩

theorem nodup_map_snd_arrowsFrom (objects : List Object) (mutable : Bool) (o : Object) :
    ((arrowsFrom objects mutable o).map Prod.snd).Nodup := by
  have hplaces : ((shownOf o).zipIdx.map Prod.snd).Nodup := by
    rw [List.zipIdx_map_snd]
    exact List.nodup_range'
  unfold arrowsFrom List.Nodup
  rw [List.pairwise_map]
  refine List.Pairwise.filterMap _ ?_ (List.pairwise_map.1 hplaces)
  intro x y hne a ha b hb
  obtain ⟨d, -, rfl⟩ := Option.map_eq_some_iff.1 ha
  obtain ⟨e, -, rfl⟩ := Option.map_eq_some_iff.1 hb
  exact hne

theorem nodup_map_snd_arrowsOf (objects : List Object) (mutable : Bool) (i : Index) :
    ((arrowsOf objects mutable i).map Prod.snd).Nodup := by
  simp only [arrowsOf]
  cases objectAt? objects i with
  | none => exact List.nodup_nil
  | some o => exact nodup_map_snd_arrowsFrom objects mutable o

variable {s : Site} {objects : List Object}

theorem getElem?_shownOf {o : Object} {k : Nat} {f : Field} {v : Value} :
    (shownOf o)[k]? = some (f, v) ↔
      o.classInfo.isArray = false ∧ o.classInfo.fields[k]? = some f ∧ o.values[k]? = some v := by
  simp only [shownOf]
  cases o.classInfo.isArray with
  | true => simp
  | false => simp [List.getElem?_zip_eq_some]

theorem edgeOf?_eq_some_iff (hs : s.Shows objects) {f : Field} {v : Value} {e : Edge} :
    edgeOf? objects (f, v) = some e ↔
      f.isReference = true ∧ ∃ a, v = .ref a ∧ s.Named a e.target ∧ e.field = f.name ∧ e.isFinal = f.isFinal := by
  simp only [edgeOf?]
  constructor
  · intro hedge
    split at hedge
    · rename_i href
      obtain ⟨target, htarget, rfl⟩ := Option.map_eq_some_iff.1 hedge
      obtain ⟨a, ha, hplace⟩ := Option.bind_eq_some_iff.1 htarget
      cases v with
      | ref b =>
        obtain rfl := Option.some.inj ha
        exact ⟨href, b, rfl, hs.placeOf?_eq_some_iff.1 hplace, rfl, rfl⟩
      | int n => simp [Value.reference?] at ha
      | long n => simp [Value.reference?] at ha
    · simp at hedge
  · rintro ⟨href, a, rfl, hnamed, hfield, hfinal⟩
    rw [if_pos href]
    refine Option.map_eq_some_iff.2 ⟨e.target, hs.placeOf?_eq_some_iff.2 hnamed, ?_⟩
    rw [← hfield, ← hfinal]

theorem mem_arrowsOf_iff (hs : s.Shows objects) {mutable : Bool} {i : Index} {e : Edge} {k : Nat} :
    (e, k) ∈ arrowsOf objects mutable i ↔ s.Leads mutable ⟨i, k⟩ e := by
  simp only [arrowsOf]
  constructor
  · intro hmem
    cases hobject : objectAt? objects i with
    | none => simp [hobject] at hmem
    | some o =>
      rw [hobject, Option.map_some, Option.getD_some] at hmem
      obtain ⟨⟨f, v⟩, hentry, hedge, hfollowed⟩ := mem_arrowsFrom_iff.1 hmem
      obtain ⟨harray, hf, hv⟩ := getElem?_shownOf.1 hentry
      obtain ⟨href, a, rfl, hnamed, hfield, hfinal⟩ := (edgeOf?_eq_some_iff hs).1 hedge
      rw [hfinal] at hfollowed
      exact ⟨f, a, ⟨o, hs.known_iff.2 hobject, harray, hf, href, hv⟩, hfollowed, hnamed, hfield, hfinal⟩
  · rintro ⟨f, a, ⟨o, hknown, harray, hf, href, hv⟩, hfollowed, hnamed, hfield, hfinal⟩
    rw [hs.known_iff.1 hknown, Option.map_some, Option.getD_some, mem_arrowsFrom_iff]
    refine ⟨(f, .ref a), getElem?_shownOf.2 ⟨harray, hf, hv⟩, ?_, by rw [hfinal]; exact hfollowed⟩
    exact (edgeOf?_eq_some_iff hs).2 ⟨href, a, rfl, hnamed, hfield, hfinal⟩

/-- The graph that is read has the edges that are followed, and all of them lead to nodes. -/
theorem charted_graphOf (hs : s.Shows objects) (mutable : Bool) :
    (graphOf objects).Charted mutable (arrowsOf objects mutable) := by
  constructor
  · intro i n hnode
    rw [node?_graphOf] at hnode
    obtain ⟨o, hobject, rfl⟩ := Option.map_eq_some_iff.1 hnode
    simp only [arrowsOf]
    rw [hobject]
    exact map_fst_arrowsFrom objects mutable o
  · intro i n hnode e he
    rw [node?_graphOf] at hnode
    obtain ⟨o, -, rfl⟩ := Option.map_eq_some_iff.1 hnode
    obtain ⟨⟨f, v⟩, -, hedge⟩ := List.mem_filterMap.1 he
    obtain ⟨-, a, -, ⟨⟨p, hknown, -⟩, -⟩, -, -⟩ := (edgeOf?_eq_some_iff hs).1 hedge
    refine ⟨nodeOf objects p, ?_⟩
    rw [node?_graphOf, hs.known_iff.1 hknown, Option.map_some]

end Dump

end KnownObjects
