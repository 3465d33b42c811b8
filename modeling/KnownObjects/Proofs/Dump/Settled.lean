import KnownObjects.Proofs.Dump.Completion
import KnownObjects.Proofs.Dump.Renaming
import Mathlib.Logic.Relation

/-!
# What mutable references cannot change

A store is `Heap.Aside` if it writes a field that is neither a final reference nor shown as a number, or any field of an array. Such a store leaves every row of a listing as it is, and what is left of a node when its mutable edges are dropped: the settled node. A forest that goes through final fields alone is a forest of settled nodes, and the line of a node shows nothing of its edges, so the default dump is the same afterwards to the last character.

A forest that goes through mutable fields as well can change its shape. The marks come from settled nodes, and so does what an object's line says behind its indentation and label.
-/

namespace KnownObjects

open Dump Relation

/-! ### Stores -/

namespace Heap

/-- The field is neither a final reference nor of signature `I`, or it is one of an array. -/
def asideAt (h : Heap) (holder : Handle) (name : String) : Bool :=
  match h.resolve holder >>= h.classOf with
  | .ok c => c.isArray ||
    ((c.slotOf? name).bind (c.fields[·]?)).any fun f => !(f.isReference && f.isFinal) && f.signature != "I"
  | .error _ => false

/-- A store into such a field. -/
def Aside (h heap : Heap) : Prop :=
  ∃ holder name new, h.store holder name new = .ok heap ∧ h.asideAt holder name

/-- An object when a value was written into a slot of the one at an address. -/
def written (a : Address) (slot : Nat) (v : Value) (o : Object) : Object :=
  if o.address == a then { o with values := o.values.set slot v } else o

section

variable (h : Heap) (a : Address) (slot : Nat) (v : Value) (o : Object)

@[simp] theorem address_written : (written a slot v o).address = o.address := by
  unfold written
  split <;> rfl

@[simp] theorem classInfo_written : (written a slot v o).classInfo = o.classInfo := by
  unfold written
  split <;> rfl

@[simp] theorem hash_written : (written a slot v o).hash = o.hash := by
  unfold written
  split <;> rfl

theorem object_setValue (b : Address) : (h.setValue a slot v).object b = (h.object b).map (written a slot v) := by
  have hfind : (h.setValue a slot v).object? b = (h.object? b).map (written a slot v) := by
    show (h.objects.map (written a slot v)).find? _ = _
    rw [List.find?_map]
    congr 2
    funext o
    exact congrArg (· == b) (address_written a slot v o)
  simp only [object, hfind]
  cases h.object? b <;> rfl

end

theorem asideAt_iff {h : Heap} {holder : Handle} {name : String} {a : Address} {o : Object} {slot : Nat} {f : Field}
    (hholder : h.resolve holder = .ok a) (hobject : h.object a = .ok o) (hslot : o.classInfo.slotOf? name = some slot)
    (hfield : o.classInfo.fields[slot]? = some f) : h.asideAt holder name ↔
      (o.classInfo.isArray = true ∨ (f.isReference && f.isFinal) = false ∧ f.signature ≠ "I") := by
  have hclass : (h.resolve holder >>= h.classOf) = .ok o.classInfo := by
    rw [hholder]
    simp only [bind, Except.bind, classOf, hobject]
    rfl
  simp only [asideAt, hclass, hslot, Option.bind_some, hfield, Option.any_some, Bool.or_eq_true, Bool.and_eq_true,
    Bool.not_eq_true', bne_iff_ne, ne_eq]

theorem Aside.exists_setValue {h heap : Heap} (hstore : h.Aside heap) (hh : h.WellFormed) :
    ∃ o slot f v, h.object o.address = .ok o ∧ o.classInfo.fields[slot]? = some f ∧
      (o.classInfo.isArray = true ∨ (f.isReference && f.isFinal) = false ∧ f.signature ≠ "I") ∧
      heap = h.setValue o.address slot v ∧ ∀ b, v = .ref b → b = .null ∨ ∃ handle, h.resolve handle = .ok b := by
  obtain ⟨holder, name, new, hok, haside⟩ := hstore
  obtain ⟨a, o, slot, f, v, hholder, hobject, hvalue, hslot, hfield, -, rfl⟩ := exists_of_store_eq_ok hok
  obtain ⟨-, rfl⟩ := hh.object_eq_ok_iff.1 hobject
  exact ⟨o, slot, f, v, hobject, hfield, (asideAt_iff hholder hobject hslot hfield).1 haside, rfl,
    fun b => valueOf_eq_ok hvalue⟩

theorem Aside.wellFormed {h heap : Heap} (hstore : h.Aside heap) (hh : h.WellFormed) : heap.WellFormed := by
  obtain ⟨o, slot, f, v, -, -, -, rfl, hv⟩ := hstore.exists_setValue hh
  exact hh.setValue hv

theorem aside_perform {h : Heap} {holder : Handle} {name : String} {new : NewValue}
    (hdone : (h.perform (.store holder name new)).1 = .done) (haside : h.asideAt holder name) :
    h.Aside (h.perform (.store holder name new)).2 := by
  cases hstore : h.store holder name new with
  | ok heap =>
    simp only [perform, hstore]
    exact ⟨holder, name, new, hstore, haside⟩
  | error e =>
    simp only [perform, hstore] at hdone
    cases hdone

end Heap

/-! ### Settled nodes -/

namespace Dump

/-- The node without its mutable edges. -/
def Node.settled (n : Node) : Node := { n with edges := n.edges.filter (·.isFinal) }

theorem Node.children_settled (n : Node) (depth : Nat) : n.settled.children false depth = n.children false depth := by
  simp only [Node.children, Node.settled]
  rw [List.filter_filter]
  simp only [Bool.or_false, Bool.and_self]

theorem Node.filter_settled (n : Node) : n.settled.edges.filter (·.isFinal) = n.edges.filter (·.isFinal) := by
  simp only [Node.settled]
  rw [List.filter_filter]
  simp only [Bool.and_self]

theorem Line.text_map_settled (line : Line) : (line.map Node.settled).text = line.text := by cases line <;> rfl

/-- Behind its indentation and its label a line says the same wherever it stands. -/
theorem Line.text_expanded (v : Visit) (n : Node) : (Line.expanded v n).text =
    Text.blanks (2 * v.depth) ++ v.label ++ (Line.expanded (.root v.index) n).text := by
  have hroot : (Visit.root v.index).text = "obj" ++ v.index.text := by simp [Visit.text, Visit.root, Text.blanks]
  simp only [Line.text, hroot]
  simp only [Visit.text, String.append_assoc]

namespace Graph

def settled (g : Graph) : Graph := g.map Node.settled

variable {g g' : Graph} (h : g'.settled = g.settled)

include h

theorem marked_eq_of_settled (bound : Index) : g'.marked bound = g.marked bound := by
  rw [← g.marked_map Node.filter_settled, ← g'.marked_map Node.filter_settled]
  exact congrArg (marked · bound) h

/-- A forest through final fields is printed from settled nodes. -/
theorem text_forest_eq_of_settled (bound : Index) :
    (g'.forest false bound).map Line.text = (g.forest false bound).map Line.text := by
  have htext : ∀ lines : List Line, (lines.map (Line.map Node.settled)).map Line.text = lines.map Line.text := by
    intro lines
    rw [List.map_map]
    exact congrArg (List.map · lines) (funext Line.text_map_settled)
  rw [← htext, ← htext (g.forest false bound), ← g.forest_map Node.children_settled Node.filter_settled,
    ← g'.forest_map Node.children_settled Node.filter_settled]
  exact congrArg (fun graph => (graph.forest false bound).map Line.text) h

end Graph

/-! ### What a store changes of a dump -/

section

variable (h : Heap) (a : Address) (slot : Nat) (v : Value)

theorem row_setValue (i : Index) (handle : Handle) : row (h.setValue a slot v) i handle = row h i handle := by
  simp only [row]
  rw [show (h.setValue a slot v).resolve handle = h.resolve handle from rfl]
  congr 1
  funext b
  rw [Heap.object_setValue]
  cases h.object b with
  | error e => rfl
  | ok o =>
    simp only [Except.map, bind, Except.bind]
    rw [Heap.hash_written, Heap.classInfo_written]

theorem rows_setValue (entries : List (Index × Handle)) : rows (h.setValue a slot v) entries = rows h entries := by
  induction entries with
  | nil => rfl
  | cons entry entries ih => simp only [rows, row_setValue, ih]

theorem edgeOf?_written (objects : List Object) :
    edgeOf? (objects.map (Heap.written a slot v)) = edgeOf? objects := by
  have hplace : placeOf? (objects.map (Heap.written a slot v)) = placeOf? objects := by
    funext b
    simp only [placeOf?, List.findIdx?_map, Function.comp_def, Heap.address_written]
  funext entry
  simp only [edgeOf?, hplace]

end

/-- What is picked from the fields of an object does not change with a value that makes no difference to it. -/
theorem filterMap_zip_set {α β γ : Type} {pick : α × β → Option γ} {keys : List α} {slot : Nat} {key : α}
    (hkey : keys[slot]? = some key) (hpick : ∀ x y, pick (key, x) = pick (key, y)) (values : List β) (v : β) :
    (keys.zip (values.set slot v)).filterMap pick = (keys.zip values).filterMap pick := by
  induction keys generalizing slot values with
  | nil => exact nomatch hkey
  | cons first keys ih =>
    cases values with
    | nil => rfl
    | cons x values =>
      cases slot with
      | zero =>
        obtain rfl := Option.some.inj hkey
        rw [List.set_cons_zero, List.zip_cons_cons, List.zip_cons_cons, List.filterMap_cons, List.filterMap_cons,
          hpick v x]
      | succ slot =>
        rw [List.set_cons_succ, List.zip_cons_cons, List.zip_cons_cons, List.filterMap_cons, List.filterMap_cons,
          ih hkey]

theorem filterMap_shownOf_written {γ : Type} {pick : Field × Value → Option γ} {o : Object} {slot : Nat} {f : Field}
    (hfield : o.classInfo.fields[slot]? = some f)
    (hpick : o.classInfo.isArray = true ∨ ∀ x y, pick (f, x) = pick (f, y)) (v : Value) :
    (shownOf (Heap.written o.address slot v o)).filterMap pick = (shownOf o).filterMap pick := by
  simp only [shownOf, Heap.classInfo_written]
  split
  · rfl
  · rename_i harray
    simp only [Heap.written, beq_self_eq_true, if_true]
    exact filterMap_zip_set hfield (hpick.resolve_left harray) o.values v

/-- The node of an object that was written aside is the same when it is settled. -/
theorem settled_nodeOf_written {objects : List Object} {o p : Object} {slot : Nat} {f : Field} {v : Value}
    (hfield : o.classInfo.fields[slot]? = some f)
    (haside : o.classInfo.isArray = true ∨ (f.isReference && f.isFinal) = false ∧ f.signature ≠ "I")
    (hsame : p.address = o.address → p = o) :
    (nodeOf (objects.map (Heap.written o.address slot v)) (Heap.written o.address slot v p)).settled =
      (nodeOf objects p).settled := by
  simp only [nodeOf, Node.settled, edgeOf?_written, List.filter_filterMap, Heap.address_written, Heap.hash_written,
    Heap.classInfo_written]
  -- Of the written field the settled node shows nothing, before and after.
  by_cases hp : p.address = o.address
  · obtain rfl := hsame hp
    have hnumber : p.classInfo.isArray = true ∨ ∀ x y, number? (f, x) = number? (f, y) := by
      refine haside.imp_right fun hf x y => ?_
      have hnone : ∀ x, number? (f, x) = none := by
        intro x
        cases x <;> simp [number?, hf.2]
      rw [hnone, hnone]
    have hedge : p.classInfo.isArray = true ∨ ∀ x y, (edgeOf? objects (f, x)).filter (·.isFinal) =
        (edgeOf? objects (f, y)).filter (·.isFinal) := by
      refine haside.imp_right fun hf x y => ?_
      have hnone : ∀ x, (edgeOf? objects (f, x)).filter (·.isFinal) = none := by
        intro x
        rw [Option.filter_eq_none_iff]
        intro e he
        simp only [edgeOf?] at he
        split at he
        · rename_i href
          obtain ⟨target, -, rfl⟩ := Option.map_eq_some_iff.1 he
          simpa [href] using hf.1
        · cases he
      rw [hnone, hnone]
    rw [filterMap_shownOf_written hfield hnumber, filterMap_shownOf_written hfield hedge]
  · rw [show Heap.written o.address slot v p = p from if_neg (by simpa using hp)]

end Dump

namespace Site

variable {h k : Heap} {t : Table} {objects : List Object}

theorem Shows.object_eq (hs : Shows ⟨h, t⟩ objects) {p : Object} (hp : p ∈ objects) : h.object p.address = .ok p := by
  obtain ⟨i, hi, rfl⟩ := List.getElem_of_mem hp
  obtain ⟨hlength, hbehind⟩ := List.forall₂_iff_get.1 hs.behind
  exact (hbehind i (hlength ▸ hi) hi).2

theorem Shows.setValue (hs : Shows ⟨h, t⟩ objects) (a : Address) (slot : Nat) (v : Value) :
    Shows ⟨h.setValue a slot v, t⟩ (objects.map (Heap.written a slot v)) where
  fits := hs.fits
  placed o ho := by
    obtain ⟨p, hp, rfl⟩ := List.mem_map.1 ho
    rw [Heap.address_written]
    exact hs.placed p hp
  behind := by
    rw [List.forall₂_map_right_iff]
    refine hs.behind.imp fun handle o hleads => ⟨?_, ?_⟩
    · rw [Heap.address_written]
      exact hleads.1
    · rw [Heap.address_written, Heap.object_setValue, hleads.2]
      rfl

theorem Shows.settled_of_aside (hs : Shows ⟨h, t⟩ objects) (hh : h.WellFormed) (hstore : h.Aside k) :
    ∃ others, Shows ⟨k, t⟩ others ∧ (graphOf others).settled = (graphOf objects).settled := by
  obtain ⟨o, slot, f, v, hobject, hfield, haside, rfl, -⟩ := hstore.exists_setValue hh
  have hnodes : ∀ p ∈ objects, (nodeOf (objects.map (Heap.written o.address slot v))
      (Heap.written o.address slot v p)).settled = (nodeOf objects p).settled := by
    intro p hp
    refine settled_nodeOf_written hfield haside fun haddress => ?_
    have hsame := hs.object_eq hp
    rw [haddress, hobject] at hsame
    exact (Except.ok.inj hsame).symm
  refine ⟨_, hs.setValue o.address slot v, ?_⟩
  show Dump.Graph.mk (((objects.map _).map (nodeOf _)).map Node.settled) =
    Dump.Graph.mk ((objects.map (nodeOf objects)).map Node.settled)
  rw [List.map_map, List.map_map, List.map_map]
  exact congrArg Dump.Graph.mk (List.map_congr_left hnodes)

/-- The rows that are made are the same, and so are the settled nodes if there is a graph. -/
structure Settles (t : Table) (h k : Heap) : Prop where
  wellFormed : k.WellFormed
  rows : ∀ entries, rows k entries = rows h entries
  shows : ∀ objects, Shows ⟨h, t⟩ objects →
    ∃ others, Shows ⟨k, t⟩ others ∧ (graphOf others).settled = (graphOf objects).settled

theorem Settles.refl (t : Table) (hh : h.WellFormed) : Settles t h h where
  wellFormed := hh
  rows _ := rfl
  shows objects hs := ⟨objects, hs, rfl⟩

/-- One more store. -/
theorem Settles.tail {l : Heap} (hsettles : Settles t h k) (hstore : k.Aside l) : Settles t h l where
  wellFormed := hstore.wellFormed hsettles.wellFormed
  rows entries := by
    obtain ⟨o, slot, f, v, -, -, -, rfl, -⟩ := hstore.exists_setValue hsettles.wellFormed
    rw [rows_setValue, hsettles.rows]
  shows objects hs := by
    obtain ⟨others, hothers, hsame⟩ := hsettles.shows objects hs
    obtain ⟨last, hlast, hnext⟩ := hothers.settled_of_aside hsettles.wellFormed hstore
    exact ⟨last, hlast, hnext.trans hsame⟩

theorem settles_of_asides (t : Table) (hh : h.WellFormed) (hstores : ReflTransGen Heap.Aside h k) : Settles t h k := by
  induction hstores with
  | refl => exact .refl t hh
  | tail _ hstore ih => exact ih.tail hstore

/-! ### Dumps after stores -/

theorem Shows.node?_of_mem_forest {s : Site} (hs : s.Shows objects) {mutable : Bool} {v : Visit} {n : Node}
    (hline : .expanded v n ∈ (graphOf objects).forest mutable s.table.endIndex) :
    (graphOf objects).node? v.index = some n := by
  obtain ⟨entries, after, hlines, hwalk, -⟩ := hs.exists_walks mutable
  rw [← hlines] at hline
  obtain ⟨x, hx, hxline⟩ := List.mem_map.1 hline
  exact hwalk.node?_of_expanded hx hxline

/-- Two forests expand the same objects, and on lines that differ in no more than indentation and label. -/
structure Alike (lines others : List Line) : Prop where
  expanded : (lines.filterMap Line.expanded?).Perm (others.filterMap Line.expanded?)
  text : ∃ plain : Index → String, ∀ v n, .expanded v n ∈ lines ++ others →
    (Line.expanded v n).text = Text.blanks (2 * v.depth) ++ v.label ++ plain v.index

theorem Shows.alike {others : List Object} (hs : Shows ⟨h, t⟩ objects) (hk : Shows ⟨k, t⟩ others)
    (hsettled : (graphOf others).settled = (graphOf objects).settled) (mutable : Bool) :
    Alike ((graphOf objects).forest mutable t.endIndex) ((graphOf others).forest mutable t.endIndex) where
  expanded := by
    rw [List.perm_iff_count]
    intro i
    rw [(hs.accounts_forest mutable).expanded, (hk.accounts_forest mutable).expanded]
  text := by
    let plain (i : Index) : String :=
      (((graphOf objects).settled.node? i).map fun n => (Line.expanded (.root i) n).text).getD ""
    have hplain : ∀ {g : Dump.Graph}, g.settled = (graphOf objects).settled → ∀ {v : Visit} {n : Node},
        g.node? v.index = some n →
        (Line.expanded v n).text = Text.blanks (2 * v.depth) ++ v.label ++ plain v.index := by
      intro g hg v n hnode
      have hsame : (graphOf objects).settled.node? v.index = some n.settled := by
        rw [← hg, Dump.Graph.settled, Dump.Graph.node?_map, hnode, Option.map_some]
      rw [Line.text_expanded, ← Line.text_map_settled (.expanded (.root v.index) n)]
      simp only [plain, hsame, Option.map_some, Option.getD_some]
      rfl
    refine ⟨plain, fun v n hline => ?_⟩
    rcases List.mem_append.1 hline with hline | hline
    · exact hplain rfl (hs.node?_of_mem_forest hline)
    · exact hplain hsettled (hk.node?_of_mem_forest hline)

/-- How the dumps of a table before and after some stores compare. -/
structure Withstands (t : Table) (h k : Heap) : Prop where
  /-- Without mutable fields they are the same, whatever the sink takes. -/
  printed : ∀ (options : DumpOptions) (limit : Option Nat), options.mutableFields = false →
    (Dump.read t options (some k)).print limit = (Dump.read t options (some h)).print limit
  /-- A listing that is cut is followed by no graph. -/
  cut : ¬Intact ⟨h, t⟩ → ∀ options, Dump.read t options (some k) = Dump.read t options (some h)
  /-- Otherwise all that can differ is the forest through mutable fields. -/
  forest : Intact ⟨h, t⟩ → ∃ (rows : List Row) (g g' : Dump.Graph), graph h t = .ok g ∧ graph k t = .ok g' ∧
    g'.marked t.endIndex = g.marked t.endIndex ∧ Alike (g.forest true t.endIndex) (g'.forest true t.endIndex) ∧
    Dump.read t ⟨true, true⟩ (some h) = .listing t.endIndex rows
      (.forest (g.marked t.endIndex).size t.slots.handles.length (g.forest true t.endIndex)) ∧
    Dump.read t ⟨true, true⟩ (some k) = .listing t.endIndex rows
      (.forest (g.marked t.endIndex).size t.slots.handles.length (g'.forest true t.endIndex))

theorem events_eq_of_text_eq {bound : Index} {rows : List Row} {marked known : Nat} {lines others : List Line}
    (htext : others.map Line.text = lines.map Line.text) :
    (Document.listing bound rows (.forest marked known others)).events =
      (Document.listing bound rows (.forest marked known lines)).events := by
  have hevents : others.map (fun line => Event.text line.text) = lines.map fun line => Event.text line.text := by
    have hpieces := congrArg (List.map Event.text) htext
    rwa [List.map_map, List.map_map] at hpieces
  simp only [Document.events, Ending.events, hevents]

/-- No store into a mutable reference, or into an array, shows in the default dump of any table. -/
theorem withstands_of_asides (hh : h.WellFormed) (hfits : t.slots.Fits) (hstores : ReflTransGen Heap.Aside h k) :
    Withstands t h k := by
  have hsettles := settles_of_asides t hh hstores
  -- Both listings end at the same row. Only behind a whole one is there a graph to compare.
  rcases rows_cases h t.slots.refs with
    ⟨made, hrows, hmade⟩ | ⟨before, i, handle, after, made, e, hsplit, hrows, -, herror⟩
  · have hintact : Intact ⟨h, t⟩ := intact_of_made hmade
    obtain ⟨objects, hs⟩ := hh.exists_shows (s := ⟨h, t⟩) hfits hintact
    obtain ⟨others, hk, hsettled⟩ := hsettles.shows objects hs
    have hmarked := Graph.marked_eq_of_settled hsettled t.endIndex
    have hbefore := hs.read_eq hrows
    have hafter := hk.read_eq ((hsettles.rows _).trans hrows)
    simp only [hmarked] at hafter
    refine ⟨fun options limit hmutable => ?_, fun hbroken => absurd hintact hbroken, fun _ => ?_⟩
    · have htext := Graph.text_forest_eq_of_settled hsettled t.endIndex
      have hevents : (Dump.read t options (some k)).events = (Dump.read t options (some h)).events := by
        rw [hbefore, hafter, hmutable]
        cases options.graph with
        | false => rw [if_neg Bool.false_ne_true, if_neg Bool.false_ne_true]
        | true =>
          rw [if_pos rfl, if_pos rfl]
          exact events_eq_of_text_eq htext
      simp only [Document.print, hevents]
    · exact ⟨_, _, _, hs.graph_eq, hk.graph_eq, hmarked, hs.alike hk hsettled true, hbefore _, hafter _⟩
  · have hsame : ∀ options, Dump.read t options (some k) = Dump.read t options (some h) := by
      intro options
      simp only [Dump.read, hsettles.rows, hrows]
    refine ⟨fun options limit _ => by rw [hsame], fun _ => hsame, fun hintact => ?_⟩
    obtain ⟨place, -, hplace⟩ := hfits.get?_eq_ref_iff.1 (place_of_refs_eq hfits hsplit).1
    obtain ⟨a, ha⟩ := hintact handle (List.mem_of_getElem? hplace)
    have hnowhere := (row_eq_error hh herror).1
    rw [ha] at hnowhere
    cases hnowhere

/-- A node gets a mutable reference back to the one that holds it by a final one, and an array gets an element. -/
theorem withstands_of_two_stores : ∃ (s : Site) (k : Heap), s.heap.WellFormed ∧ s.table.slots.Fits ∧ Intact s ∧
    ReflTransGen Heap.Aside s.heap k ∧
    (graph s.heap s.table).toOption.map (fun g => g.links true) = some [(.ofNat 1, .ofNat 2)] ∧
    (graph k s.table).toOption.map (fun g => g.links true) = some [(.ofNat 1, .ofNat 2), (.ofNat 2, .ofNat 1)] ∧
    Withstands s.table s.heap k := by
  have hstart := Reached.start (@Heap.Reached.created 0 .default _ rfl)
  have hnode := hstart.performed (.heap (.define ⟨"p/Node", [(Field.ofSignature "next" "Lp/Node;").immutable,
    .ofSignature "peer" "Lp/Node;", .ofSignature "label" "I"], false⟩)) (by decide)
  have harray := hnode.performed (.heap (.define
    ⟨"[Lp/Node;", [(Field.ofSignature "first" "Lp/Node;").immutable], true⟩)) (by decide +kernel)
  have hfirst := harray.performed (.heap (.allocate 0)) (by decide +kernel)
  have hsecond := hfirst.performed (.heap (.allocate 0)) (by decide +kernel)
  have hthird := hsecond.performed (.heap (.allocate 1)) (by decide +kernel)
  have hthere := hthird.performed (.heap (.store ⟨0⟩ "next" (.ref ⟨1⟩))) (by decide +kernel)
  have hone := hthere.performed (.table (.indexAt (.handle ⟨0⟩) false)) (by decide +kernel)
  have htwo := hone.performed (.table (.indexAt (.handle ⟨1⟩) false)) (by decide +kernel)
  have hthree := htwo.performed (.table (.indexAt (.handle ⟨2⟩) false)) (by decide +kernel)
  obtain ⟨s, hreached, hintact, hback, hmutable, helement, hwithin, hbefore, hafter⟩ : ∃ s : Site, s.Reached ∧ Intact s ∧
      (s.heap.perform (.store ⟨1⟩ "peer" (.ref ⟨0⟩))).1 = .done ∧ s.heap.asideAt ⟨1⟩ "peer" ∧
      ((s.heap.perform (.store ⟨1⟩ "peer" (.ref ⟨0⟩))).2.perform (.store ⟨2⟩ "first" (.ref ⟨0⟩))).1 = .done ∧
      (s.heap.perform (.store ⟨1⟩ "peer" (.ref ⟨0⟩))).2.asideAt ⟨2⟩ "first" ∧
      (graph s.heap s.table).toOption.map (fun g => g.links true) = some [(.ofNat 1, .ofNat 2)] ∧
      (graph ((s.heap.perform (.store ⟨1⟩ "peer" (.ref ⟨0⟩))).2.perform (.store ⟨2⟩ "first" (.ref ⟨0⟩))).2
        s.table).toOption.map (fun g => g.links true) = some [(.ofNat 1, .ofNat 2), (.ofNat 2, .ofNat 1)] :=
    ⟨_, hthree, by decide +kernel⟩
  have hstores := (ReflTransGen.single (Heap.aside_perform hback hmutable)).tail (Heap.aside_perform helement hwithin)
  exact ⟨s, _, hreached.wellFormed, hreached.fits, hintact, hstores, hbefore, hafter,
    withstands_of_asides hreached.wellFormed hreached.fits hstores⟩

end Site

end KnownObjects
