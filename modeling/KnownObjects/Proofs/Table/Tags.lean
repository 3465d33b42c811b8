import KnownObjects.Proofs.Coupling
import KnownObjects.Proofs.Table.Service

/-!
# Tags are exact and change nothing else

A table is used through a heap, or through a channel to the process that has the heap. A `Desk` is a table of either sort with what it is used through. A run is a row of uses, each of which may fail, and between them anything may happen to the heap or at the other end of the channel.

Two things are shown of every run. An index is tagged if and only if a use that came to its end has asked for it, and it is neither null nor the mark of an unknown object. And nothing but the tags depends on tags: uses that only set or ask for them can be left out, and flags turned, wherever one likes, and all other uses are answered as before. So each run is compared with one in which no tag is ever set.
-/

namespace KnownObjects

theorem IndexSet.contains_tag {s : IndexSet} {i j : Index} :
    (s.tag i).contains j = true ↔ s.contains j = true ∨ j = i ∧ j ≠ .null ∧ j ≠ .unknown := by
  unfold IndexSet.tag
  by_cases hproper : i = .null ∨ i = .unknown
  · rw [if_pos (by simpa [Index.isNull, Index.isUnknown] using hproper)]
    refine ⟨Or.inl, fun h => h.elim id ?_⟩
    rintro ⟨rfl, hnull, hunknown⟩
    exact absurd hproper (by simp [hnull, hunknown])
  · rw [if_neg (by simpa [Index.isNull, Index.isUnknown] using hproper), IndexSet.contains_insert, Bool.or_eq_true,
      decide_eq_true_iff, or_comm]
    refine or_congr_right ⟨fun h => ⟨h, ?_⟩, fun h => h.1⟩
    rwa [h, ← not_or]

theorem IndexSet.contains_tagAfter {s : IndexSet} {constant : Bool} {r : Except Fatal Index} {i : Index} :
    (s.tagAfter constant r).contains i = true ↔
      s.contains i = true ∨ (constant = true ∧ r = .ok i) ∧ i ≠ .null ∧ i ≠ .unknown := by
  cases r with
  | error f => simp [IndexSet.tagAfter]
  | ok j =>
    cases constant with
    | false => simp [IndexSet.tagAfter]
    | true =>
      have heq : Except.ok j = (Except.ok i : Except Fatal Index) ↔ i = j := by rw [Except.ok.injEq, eq_comm]
      simpa [IndexSet.tagAfter, heq] using IndexSet.contains_tag

/-! ### Desks -/

/-- A table with what it is used through. -/
class Desk (σ : Type) where
  Use : Type
  Outside : Type
  perform : Use → Action Fatal σ Table.Answer
  /-- Something happens outside of the table. -/
  turn : (Outside → Outside) → σ → σ
  isTagged : σ → Index → Bool
  /-- The index that a use asks to be tagged, if it has come to its end. -/
  tagged? : Use → Except Fatal Table.Answer → Option Index
  /-- The desk without the tags. -/
  bare : σ → σ
  /-- A use without its flag. Nothing is left of those that only set tags or ask for them. -/
  bare? : Use → Option Use

namespace Desk

variable {σ : Type} [Desk σ]

def Alike (s t : σ) : Prop := bare s = bare t

/-- All that was tagged still is, and an index that was asked for is, if it can stand for an object. -/
def Tagged (s t : σ) (asked : Option Index) : Prop :=
  ∀ i, isTagged t i = true ↔ isTagged s i = true ∨ asked = some i ∧ i ≠ .null ∧ i ≠ .unknown

/-- What holds at any desk, step by step. -/
class Lawful (σ : Type) [Desk σ] : Prop where
  isTagged_turn : ∀ change (s : σ) i, isTagged (turn change s) i = isTagged s i
  tagged_perform : ∀ use (s : σ), Tagged s ((perform use).run s).state (tagged? use ((perform use).run s).result)
  alike_turn : ∀ change (s t : σ), Alike s t → Alike (turn change s) (turn change t)
  alike_perform : ∀ use, bare? (σ := σ) use = none → ∀ s : σ, Alike ((perform use).run s).state s
  coupled_perform : ∀ use plain, bare? (σ := σ) use = some plain →
    Action.Coupled Alike Eq Eq (perform (σ := σ) use) (perform plain)

variable (σ) in
inductive Step where
  | use (use : Use σ)
  | meanwhile (change : Outside σ → Outside σ)

namespace Step

def tagged? : Step σ → Except Fatal Table.Answer → Option Index
  | use u, r => Desk.tagged? u r
  | meanwhile _, _ => none

def bare? : Step σ → Option (Step σ)
  | use u => (Desk.bare? u).map use
  | meanwhile change => some (meanwhile change)

end Step

def follow : List (Step σ) → σ → List (Except Fatal Table.Answer) × σ
  | [], s => ([], s)
  | .use u :: rest, s =>
    let o := (perform u).run s
    let others := follow rest o.state
    (o.result :: others.1, others.2)
  | .meanwhile change :: rest, s =>
    let others := follow rest (turn change s)
    (.ok .done :: others.1, others.2)

/-- The answers to the steps of which something is left without the tags. -/
def shown (script : List (Step σ)) (answers : List (Except Fatal Table.Answer)) : List (Except Fatal Table.Answer) :=
  ((script.zip answers).filter fun p => p.1.bare?.isSome).map Prod.snd

theorem shown_cons (step : Step σ) (rest : List (Step σ)) (r : Except Fatal Table.Answer)
    (answers : List (Except Fatal Table.Answer)) :
    shown (step :: rest) (r :: answers) = if step.bare?.isSome then r :: shown rest answers else shown rest answers := by
  simp only [shown, List.zip_cons_cons, List.filter_cons]
  split <;> rfl

/-- What tags are, and what they are not, from some moment on. -/
structure Tagging (s : σ) : Prop where
  exact : ∀ script i, isTagged (follow script s).2 i = true ↔ i ≠ .null ∧ i ≠ .unknown ∧
    ∃ p ∈ script.zip (follow script s).1, p.1.tagged? p.2 = some i
  inert : ∀ script other, script.filterMap Step.bare? = other.filterMap Step.bare? →
    shown script (follow script s).1 = shown other (follow other s).1 ∧ Alike (follow script s).2 (follow other s).2

section

variable [Lawful σ]

theorem isTagged_follow (script : List (Step σ)) (s : σ) (i : Index) : isTagged (follow script s).2 i = true ↔
    isTagged s i = true ∨ i ≠ .null ∧ i ≠ .unknown ∧ ∃ p ∈ script.zip (follow script s).1, p.1.tagged? p.2 = some i := by
  induction script generalizing s with
  | nil => simp [follow]
  | cons step rest ih =>
    cases step with
    | use u =>
      have hstep := Lawful.tagged_perform u s i
      simp only [follow, ih, hstep, List.zip_cons_cons, List.mem_cons, exists_eq_or_imp, Step.tagged?]
      tauto
    | meanwhile change =>
      simp only [follow, ih, Lawful.isTagged_turn, List.zip_cons_cons, List.mem_cons, exists_eq_or_imp, Step.tagged?]
      simp

/-- A run is answered as one without tags is, once the answers about tags are taken out. -/
theorem follow_bare (script : List (Step σ)) {s t : σ} (hst : Alike s t) :
    shown script (follow script s).1 = (follow (script.filterMap Step.bare?) t).1 ∧
      Alike (follow script s).2 (follow (script.filterMap Step.bare?) t).2 := by
  induction script generalizing s t with
  | nil => exact ⟨rfl, hst⟩
  | cons step rest ih =>
    cases step with
    | meanwhile change =>
      obtain ⟨hanswers, hend⟩ := ih (Lawful.alike_turn change s t hst)
      refine ⟨?_, hend⟩
      rw [follow, shown_cons, hanswers]
      rfl
    | use u =>
      cases hbare : Desk.bare? u with
      | none =>
        have hskip : (Step.use u :: rest).filterMap Step.bare? = rest.filterMap Step.bare? :=
          List.filterMap_cons_none (by simp [Step.bare?, hbare])
        obtain ⟨hanswers, hend⟩ := ih (Eq.trans (Lawful.alike_perform u hbare s) hst)
        refine ⟨?_, hskip ▸ hend⟩
        rw [hskip, ← hanswers, follow, shown_cons, if_neg (by simp [Step.bare?, hbare])]
      | some plain =>
        have hkept : (Step.use u :: rest).filterMap Step.bare? = .use plain :: rest.filterMap Step.bare? :=
          List.filterMap_cons_some (by simp [Step.bare?, hbare])
        obtain ⟨hresult, hstate⟩ := Lawful.coupled_perform u plain hbare s t hst
        obtain ⟨hanswers, hend⟩ := ih hstate
        refine ⟨?_, hkept ▸ hend⟩
        rw [hkept, follow, follow, shown_cons, if_pos (by simp [Step.bare?, hbare]), hanswers, hresult.eq]

theorem tagging_of_untagged {s : σ} (hs : ∀ i, isTagged s i = false) : Tagging s where
  exact script i := by
    rw [isTagged_follow, hs]
    simp
  inert script other hsame := by
    obtain ⟨hanswers, hend⟩ := follow_bare script (Eq.refl (bare s))
    obtain ⟨hanswers', hend'⟩ := follow_bare other (Eq.refl (bare s))
    rw [hanswers, hanswers', hsame]
    rw [hsame] at hend
    exact ⟨rfl, Eq.trans hend (Eq.symm hend')⟩

end

end Desk

/-- The index that an operation asks to be tagged, if it has come to its end. -/
def Table.Operation.tagged? : Table.Operation → Except Fatal Table.Answer → Option Index
  | .tag i, .ok _ => some i
  | .indexAt _ true, .ok (.index i) => some i
  | _, _ => none

def Table.Operation.bare? : Table.Operation → Option Table.Operation
  | .tag _ => none
  | .isTagged _ => none
  | .indexAt location _ => some (.indexAt location false)
  | operation => some operation

/-! ### Tables that read a heap -/

namespace Site

variable {α : Type}

def Operation.tagged? : Operation → Except Fatal Table.Answer → Option Index
  | .table operation, r => operation.tagged? r
  | .indexOf _ true, .ok (.index i) => some i
  | _, _ => none

def Operation.bare? : Operation → Option Operation
  | .table operation => operation.bare?.map .table
  | .indexOf object _ => some (.indexOf object false)
  | operation => some operation

def retag (s : Site) (tags : IndexSet) : Site := { s with table := { s.table with constantElements := tags } }

instance : Desk Site where
  Use := Operation
  Outside := Heap
  perform := perform
  turn change s := { s with heap := change s.heap }
  isTagged s i := s.table.isTagged i
  tagged? := Operation.tagged?
  bare s := s.retag .empty
  bare? := Operation.bare?

/-! #### What sets tags -/

def KeepsTags (s t : Site) : Prop := t.table.constantElements = s.table.constantElements

instance : Std.Refl KeepsTags := ⟨fun _ => rfl⟩

instance : Trans KeepsTags KeepsTags KeepsTags where
  trans hst htu := Eq.trans htu hst

private theorem keepsTags_of_eq (s t : Site) (h : s = t) : KeepsTags s t := h ▸ rfl

theorem indexOf_keepsTags (a : Address) : (indexOf a).Keeps KeepsTags := by
  intro s
  have htable := (looked_of_ends ((indexOf a).ends s)).table_eq
  rw [KeepsTags, htable]

theorem indexReply_keepsTags (a : Address) : (indexReply a).Keeps KeepsTags :=
  (indexOf_keepsTags a).bind fun i => ((slot_keeps i).mono keepsTags_of_eq).bind fun _ => .pure _

theorem serve_keepsTags (request : Request) : (serve request).Keeps KeepsTags := by
  cases request with
  | getIndex object =>
    refine (Action.Keeps.note _ _).bind fun _ => Action.Keeps.get.bind fun s => ?_
    split
    · exact indexReply_keepsTags object
    · exact .pure _
  | getIndexAt location =>
    exact (Action.Keeps.note _ _).bind fun _ => withObjectAt_keeps location indexReply_keepsTags
  | getExistingIndexAt location => exact (serve_getExistingIndexAt_keeps location).mono keepsTags_of_eq
  | getPointer i => exact (serve_getPointer_keeps i).mono keepsTags_of_eq

theorem tagged_of_keeps {s : Site} {a : Run α} (h : a.Keeps KeepsTags) : Desk.Tagged s (a.run s).state none := by
  intro i
  show (a.run s).state.table.constantElements.contains i = true ↔ s.table.constantElements.contains i = true ∨ _
  rw [h s]
  simp

/-- A lookup with a flag tags what it finds. -/
theorem tagged_tagging {lookup : Run Index} (h : lookup.Keeps KeepsTags) (constant : Bool) (s : Site) :
    Desk.Tagged s ((tagging constant lookup).run s).state
      (if constant then ((tagging constant lookup).run s).result.toOption else none) := by
  obtain ⟨hresult, hstate⟩ := tagging_ends (lookup.ends s) constant
  intro i
  rw [hresult, hstate]
  refine IndexSet.contains_tagAfter.trans ?_
  rw [h s]
  show s.table.isTagged i = true ∨ _ ↔ s.table.isTagged i = true ∨ _
  cases constant <;> cases (lookup.run s).result <;> simp [Except.toOption]

theorem tagged_perform (operation : Operation) (s : Site) :
    Desk.Tagged s ((perform operation).run s).state (operation.tagged? ((perform operation).run s).result) := by
  have hlookup : ∀ {constant : Bool} {lookup : Run Index}, lookup.Keeps KeepsTags →
      perform operation = .index <$> tagging constant lookup →
      (∀ r : Except Fatal Index, operation.tagged? (r.map .index) = if constant then r.toOption else none) →
      Desk.Tagged s ((perform operation).run s).state (operation.tagged? ((perform operation).run s).result) := by
    intro constant lookup hkeeps hperform htagged
    obtain ⟨hresult, hstate⟩ := ((tagging constant lookup).ends s).map Table.Answer.index
    rw [hperform, hresult, hstate, htagged]
    exact tagged_tagging hkeeps constant s
  cases operation with
  | heap operation => exact tagged_of_keeps (a := Table.Answer.heap <$> onHeap operation) fun _ => rfl
  | table operation =>
    cases operation with
    | endIndex | isNull | isTagged => exact tagged_of_keeps (a := pure ()) fun _ => rfl
    | slot j => exact tagged_of_keeps (((slot_keeps j).mono keepsTags_of_eq).map Table.Answer.slot)
    | tag j =>
      intro i
      refine IndexSet.contains_tag.trans (or_congr_right ?_)
      rw [show (Operation.table (.tag j)).tagged? _ = some j from rfl, Option.some_inj, eq_comm (a := i)]
    | indexAt location constant =>
      have hread : (read location).Keeps KeepsTags := (read_keeps location).mono keepsTags_of_eq
      refine hlookup (hread.bind indexOf_keepsTags) rfl fun r => ?_
      cases constant <;> cases r <;> rfl
    | existingIndexAt location =>
      have hread : (read location).Keeps (· = ·) := read_keeps location
      exact tagged_of_keeps (((hread.bind existingIndexOf_keeps).mono keepsTags_of_eq).map Table.Answer.index)
  | indexOf object constant =>
    refine hlookup (indexOf_keepsTags object) rfl fun r => ?_
    cases constant <;> cases r <;> rfl
  | existingIndexOf object =>
    exact tagged_of_keeps (((existingIndexOf_keeps object).mono keepsTags_of_eq).map Table.Answer.index)
  | pointerOf j => exact tagged_of_keeps (((pointerOf_keeps j).mono keepsTags_of_eq).map Table.Answer.pointer)
  | serve request => exact tagged_of_keeps ((serve_keepsTags request).map Table.Answer.response)

/-! #### What tags do not touch -/

def AlikeBare (s t : Site) : Prop := s.retag .empty = t.retag .empty

theorem alike_retag (s : Site) (tags : IndexSet) : AlikeBare s (s.retag tags) := rfl

theorem AlikeBare.exists_retag {s t : Site} (h : AlikeBare s t) : ∃ tags, t = s.retag tags := by
  obtain ⟨heap, heapId, slots, tags⟩ := s
  obtain ⟨heap', heapId', slots', tags'⟩ := t
  simp only [AlikeBare, retag, Site.mk.injEq, Table.mk.injEq] at h
  obtain ⟨rfl, rfl, rfl, -⟩ := h
  exact ⟨tags', rfl⟩

/-- The two runs do the same to sites that differ in tags at most. -/
abbrev Blind (a b : Run α) : Prop := Action.Coupled AlikeBare Eq Eq a b

namespace Blind

variable {β : Type}

theorem get_bind {f g : Site → Run α} (h : ∀ s tags, Blind (f s) (g (s.retag tags))) :
    Blind (get >>= f) (get >>= g) := by
  refine Action.Coupled.get.bind fun s t hst => ?_
  obtain ⟨tags, rfl⟩ := hst.exists_retag
  exact h s tags

theorem set {s t : Site} (h : AlikeBare s t) : Blind (set s) (set t) := Action.Coupled.set h

theorem checkHeap : Blind Site.checkHeap Site.checkHeap := by
  refine get_bind fun s tags => ?_
  dsimp only [retag]
  split
  · exact .pure rfl
  · exact .raise _

theorem slot (i : Index) : Blind (Site.slot i) (Site.slot i) := get_bind fun _ _ => Action.Coupled.orRaise_self id _

theorem read (location : Location) : Blind (Site.read location) (Site.read location) :=
  get_bind fun _ _ => .orRaise_self _ _

theorem learn (object : Address) : Blind (Site.learn object) (Site.learn object) := by
  refine get_bind fun s tags => (Action.Coupled.orRaise_self _ _).bind_eq fun made => ?_
  refine (set (alike_retag _ tags)).bind_eq fun _ => (Action.Coupled.orRaise_self id _).bind_eq fun added => ?_
  refine Action.Coupled.bind_eq (Action.Coupled.modify ?_) fun _ => (Action.Coupled.note _ _ _).bind_eq fun _ => .pure rfl
  intro s t hst
  obtain ⟨tags, rfl⟩ := hst.exists_retag
  rfl

theorem indexOf (object : Address) : Blind (Site.indexOf object) (Site.indexOf object) := by
  simp only [Site.indexOf]
  split
  · exact .pure rfl
  · refine checkHeap.bind_eq fun _ => get_bind fun s tags => (Action.Coupled.orRaise_self _ _).bind_eq fun found => ?_
    cases found with
    | some i => exact (Action.Coupled.note _ _ _).bind_eq fun _ => .pure rfl
    | none => exact learn object

theorem existingIndexOf (object : Address) : Blind (Site.existingIndexOf object) (Site.existingIndexOf object) := by
  simp only [Site.existingIndexOf]
  split
  · exact .pure rfl
  · exact checkHeap.bind_eq fun _ => get_bind fun s tags => (Action.Coupled.orRaise_self _ _).bind_eq fun found => .pure rfl

theorem pointerOf (i : Index) : Blind (Site.pointerOf i) (Site.pointerOf i) := by
  refine (slot i).bind_eq fun found => ?_
  cases found with
  | null => exact .pure rfl
  | ref h => exact checkHeap.bind_eq fun _ => get_bind fun s tags => .orRaise_self _ _

theorem tag (i : Index) : Blind (Site.tag i) (pure ()) := by
  intro s t hst
  obtain ⟨tags, rfl⟩ := hst.exists_retag
  exact ⟨.ok rfl, rfl⟩

/-- The flag of a lookup makes no difference to what it finds. -/
theorem tagging {lookup : Run Index} (h : Blind lookup lookup) (constant : Bool) :
    Blind (Site.tagging constant lookup) (Site.tagging false lookup) := by
  refine h.bind_eq fun i => ?_
  cases constant with
  | false => exact .pure rfl
  | true => exact (tag i).bind_eq fun _ => .pure rfl

theorem indexAt (location : Location) (constant : Bool) :
    Blind (Site.indexAt location constant) (Site.indexAt location false) :=
  tagging ((read location).bind_eq indexOf) constant

theorem existingIndexAt (location : Location) : Blind (Site.existingIndexAt location) (Site.existingIndexAt location) :=
  (read location).bind_eq existingIndexOf

theorem indexReply (object : Address) : Blind (Site.indexReply object) (Site.indexReply object) :=
  (indexOf object).bind_eq fun i => (slot i).bind_eq fun _ => .pure rfl

theorem withObjectAt (location : Location) {answer : Address → Run Response} (h : ∀ a, Blind (answer a) (answer a)) :
    Blind (Site.withObjectAt location answer) (Site.withObjectAt location answer) := by
  refine get_bind fun s tags => ?_
  dsimp only [retag]
  cases s.heap.read location with
  | ok a => exact h a
  | error e => exact .pure rfl

theorem serve (request : Request) : Blind (Site.serve request) (Site.serve request) := by
  refine (Action.Coupled.note _ _ _).bind_eq fun _ => ?_
  cases request with
  | getIndex object =>
    refine get_bind fun s tags => ?_
    dsimp only [retag]
    split
    · exact indexReply object
    · exact .pure rfl
  | getIndexAt location => exact withObjectAt location indexReply
  | getExistingIndexAt location =>
    exact withObjectAt location fun a => (existingIndexOf a).bind_eq fun i => .pure rfl
  | getPointer i =>
    refine get_bind fun s tags => ?_
    dsimp only [retag, Table.endIndex]
    split
    · exact .pure rfl
    · exact (pointerOf i).bind_eq fun a => .pure rfl

theorem onHeap (operation : Heap.Operation) : Blind (Site.onHeap operation) (Site.onHeap operation) :=
  get_bind fun _ tags => (set (alike_retag _ tags)).bind_eq fun _ => .pure rfl

theorem dropTable : Blind Site.dropTable Site.dropTable :=
  get_bind fun _ tags => (set (alike_retag _ tags)).bind_eq fun _ => .note _ _ _

theorem map {a b : Run α} (h : Blind a b) (f : α → β) : Blind (f <$> a) (f <$> b) :=
  Action.Coupled.map h fun _ _ heq => congrArg f heq

theorem onTable {operation plain : Table.Operation} (hbare : operation.bare? = some plain) :
    Blind (Site.onTable operation) (Site.onTable plain) := by
  cases operation with
  | tag | isTagged => cases hbare
  | endIndex =>
    cases hbare
    exact get_bind fun _ _ => .pure rfl
  | isNull i =>
    cases hbare
    exact .pure rfl
  | slot i =>
    cases hbare
    exact (slot i).map Table.Answer.slot
  | indexAt location constant =>
    cases hbare
    exact (indexAt location constant).map Table.Answer.index
  | existingIndexAt location =>
    cases hbare
    exact (existingIndexAt location).map Table.Answer.index

theorem perform {operation plain : Operation} (hbare : operation.bare? = some plain) :
    Blind (Site.perform operation) (Site.perform plain) := by
  cases operation with
  | heap operation =>
    cases hbare
    exact (onHeap operation).map Table.Answer.heap
  | table operation =>
    obtain ⟨plain, hplain, rfl⟩ := Option.map_eq_some_iff.1 hbare
    exact onTable hplain
  | indexOf object constant =>
    cases hbare
    exact (tagging (indexOf object) constant).map Table.Answer.index
  | existingIndexOf object =>
    cases hbare
    exact (existingIndexOf object).map Table.Answer.index
  | pointerOf i =>
    cases hbare
    exact (pointerOf i).map Table.Answer.pointer
  | serve request =>
    cases hbare
    exact (serve request).map Table.Answer.response

end Blind

instance : Desk.Lawful Site where
  isTagged_turn change s i := rfl
  tagged_perform := tagged_perform
  alike_turn change s t hst := by
    obtain ⟨tags, rfl⟩ := AlikeBare.exists_retag hst
    rfl
  alike_perform use hbare s := by
    cases use with
    | table operation =>
      cases operation with
      | tag | isTagged => rfl
      | endIndex | isNull | slot | indexAt | existingIndexAt => cases hbare
    | heap | indexOf | existingIndexOf | pointerOf | serve => cases hbare
  coupled_perform use plain hbare := Blind.perform hbare

/-- A lookup with a flag tags what it finds. One that fails tags nothing, and null is never tagged. -/
example :
    let uses : List Operation := [.heap (.define ⟨"p/Node", [], false⟩), .heap (.allocate 0),
      .table (.indexAt (.handle ⟨9⟩) true), .table (.indexAt (.handle ⟨0⟩) true), .table (.tag .null)]
    let s : Site := ⟨⟨0, .default, [], [], 0x1000, 0x9e3779b9, .empty, 0⟩, .empty 0⟩
    (Desk.follow (uses.map Desk.Step.use) s).2.table.constantElements = (IndexSet.empty.insert (.ofNat 1)).2 := by
  decide +kernel

end Site

end KnownObjects
