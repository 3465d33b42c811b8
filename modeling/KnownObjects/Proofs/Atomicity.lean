import KnownObjects.Proofs.Table.Service
import KnownObjects.Session.Run

/-!
# Operations that fail change nothing

What is asked of a heap or of a table may fail for many reasons: a handle that leads nowhere, an address that has become stale, a field that is not there, a heap to which the table does not belong. A lookup reads the handles of a table one by one, so it may also fail in the middle, where someone else has given one of them back. In none of these cases does anything change, neither on the heap nor in the table.

There is one exception. A table that has no room for another slot leaves the handle that was made for it to nobody; so a failure for that reason is set apart.
-/

namespace KnownObjects

/-! ### Runs at a site -/

namespace Site

variable {α β : Type} {s t : Site}

/-- However the run fails, short of a table that is full, the site is as it was. -/
def Clean (a : Run α) (s : Site) : Prop := ∀ f t, a.Ends s (.error f) t → f ≠ .tableFull → t = s

theorem Clean.of_keeps {a : Run α} (ha : a.Keeps (· = ·)) (s : Site) : Clean a s :=
  fun _ _ hends _ => (ha.of_ends hends).symm

theorem Clean.of_ok {a : Run α} {x : α} (ha : a.Ends s (.ok x) t) : Clean a s :=
  fun _ _ hends _ => nomatch (hends.unique ha).1

theorem Clean.bind {a : Run α} {f : α → Run β} (ha : a.Keeps (· = ·)) (hf : ∀ x, Clean (f x) s) :
    Clean (a >>= f) s := by
  intro e t hends hfull
  rcases hends.of_bind with ⟨x, u, hfirst, hrest⟩ | ⟨e', -, hfirst⟩
  · obtain rfl := ha.of_ends hfirst
    exact hf x e t hrest hfull
  · exact (ha.of_ends hfirst).symm

theorem Clean.map {a : Run α} (ha : Clean a s) (f : α → β) : Clean (f <$> a) s :=
  fun e t hends hfull => ha e t hends.of_map_error hfull

theorem Looked.eq_of_error {a : Address} {f : Fatal} (h : Looked a s (.error f) t) (hfull : f ≠ .tableFull) : t = s := by
  cases h with
  | foreign | unreadable | stale => rfl
  | full => exact absurd rfl hfull

theorem indexOf_clean (a : Address) (s : Site) : Clean (indexOf a) s :=
  fun _ _ hends hfull => (looked_of_ends hends).eq_of_error hfull

/-- A tag is set only after a lookup that has succeeded. -/
theorem tagging_clean {lookup : Run Index} (h : Clean lookup s) (constant : Bool) : Clean (tagging constant lookup) s := by
  intro e t hends hfull
  obtain ⟨hresult, hstate⟩ := hends.unique (tagging_ends (lookup.ends s) constant)
  have hfailed := lookup.ends s
  rw [← hresult] at hstate hfailed
  rw [hstate]
  exact h e _ hfailed hfull

/-- The slot of an index that was just looked up is there. -/
theorem indexReply_clean (hs : s.table.slots.Fits) (a : Address) : Clean (indexReply a) s := by
  intro e t hends hfull
  rcases hends.of_bind with ⟨i, u, hfound, hrest⟩ | ⟨e', he, hfailed⟩
  · obtain ⟨slot, hslot⟩ := (looked_of_ends hfound).exists_slot hs
    exact absurd (hends.unique (indexReply_ends hfound hslot)).1 (by simp)
  · obtain rfl := Except.error.inj he
    exact indexOf_clean a s e t hfailed hfull

theorem serve_clean (hs : s.table.slots.Fits) (request : Request) : Clean (serve request) s := by
  cases request with
  | getIndex object =>
    refine .bind (.note _ _) fun _ => .bind .get fun u => ?_
    split
    · exact indexReply_clean hs object
    · exact .of_keeps (.pure _) s
  | getIndexAt location =>
    refine .bind (.note _ _) fun _ => .bind .get fun u => ?_
    cases u.heap.read location with
    | ok a => exact indexReply_clean hs a
    | error e => exact .of_keeps (.pure _) s
  | getExistingIndexAt location => exact .of_keeps (serve_getExistingIndexAt_keeps location) s
  | getPointer i => exact .of_keeps (serve_getPointer_keeps i) s

/-- A request that is refused has changed nothing either. -/
theorem eq_of_refused (hs : s.table.slots.Fits) {request : Request} {text : String}
    (h : (serve request).Ends s (.ok (.refusal text)) t) : t = s := by
  cases served_of_ends hs h with
  | refused => rfl

end Site

namespace Session

/-! ### Commands of a session -/

/-- What a run of a session answers. -/
def answerOf : Except Stop Answer → Answer
  | .ok answer => answer
  | .error (.fatal f) => .fatal f
  | .error .undefinedClass => .undefinedClass

/-- The answer tells of a failure, but not of a table that is full. -/
inductive Answer.Failed : Answer → Prop
  | refused (e : HeapError) : Failed (.refused e)
  | fatal {f : Fatal} : f ≠ .tableFull → Failed (.fatal f)
  | rejected (text : String) : Failed (.response (.refusal text))

/-- No table that reads a heap has more slots than there are indices. -/
def Fits (s : Session) : Prop := ∀ n serves table, s.table? n = some (.direct serves table) → table.slots.Fits

/-- The command asks for one operation, of a heap or of a table that reads its heap. A compilation and a stream of requests are many operations. -/
def Command.Single (s : Session) : Command → Prop
  | .onTable n operation => (∀ server client, s.table? n ≠ some (.server server client)) ∧
    ∀ requests bytes capacity, operation ≠ .serveStream requests bytes capacity
  | .compile _ _ _ => False
  | _ => True

/-- If the run fails, the session is as it was. -/
def Atomic (a : Run Answer) (s : Session) : Prop := ∀ r t, a.Ends s r t → (answerOf r).Failed → t = s

variable {s : Session}

theorem Atomic.of_keeps {a : Run Answer} (ha : a.Keeps (· = ·)) (s : Session) : Atomic a s :=
  fun _ _ hends _ => (ha.of_ends hends).symm

theorem Atomic.get_bind {f : Session → Run Answer} (h : Atomic (f s) s) : Atomic (get >>= f) s :=
  fun r t hends => h r t ((Action.get_ends s).of_bind_ok hends)

theorem Atomic.of_ends {a : Run Answer} (answer : Answer) {t : Session} (ha : a.Ends s (.ok answer) t)
    (hanswer : ¬answer.Failed) : Atomic a s := by
  intro r u hends hfailed
  obtain ⟨rfl, -⟩ := hends.unique ha
  exact absurd hfailed hanswer

/-- What can go wrong at most is that a class is not defined, which is no failure of an operation. -/
def Unfailing (a : Run Answer) : Prop := ∀ s r t, a.Ends s r t → ¬(answerOf r).Failed

theorem Unfailing.pure (answer : Answer) (h : ¬answer.Failed) : Unfailing (Pure.pure answer) := by
  intro s r t hends
  rwa [(hends.unique (Action.pure_ends answer s)).1]

theorem Unfailing.bind {α : Type} {a : Run α} {f : α → Run Answer} (ha : a.Raises (· = .undefinedClass))
    (hf : ∀ x, Unfailing (f x)) : Unfailing (a >>= f) := by
  intro s r t hends
  rcases hends.of_bind with ⟨x, u, -, hrest⟩ | ⟨e, rfl, hfirst⟩
  · exact hf x u r t hrest
  · rw [ha s e t hfirst]
    exact nofun

theorem Unfailing.atomic {a : Run Answer} (h : Unfailing a) (s : Session) : Atomic a s :=
  fun r t hends hfailed => absurd hfailed (h s r t hends)

theorem Atomic.withAddress (heap : Option Heap) (term : AddressTerm) {next : Address → Run Answer}
    (h : ∀ a, Atomic (next a) s) : Atomic (withAddress heap term next) s := by
  apply Atomic.get_bind
  cases s.addressOf heap term with
  | ok a => exact h a
  | error answer => exact .of_keeps (.pure answer) s

theorem setHeap_self {n : HeapId} {heap : Heap} (h : s.heaps[n]? = some heap) : s.setHeap n heap = s := by
  obtain ⟨hn, rfl⟩ := Array.getElem?_eq_some_iff.1 h
  simp [setHeap, Array.setIfInBounds, hn]

theorem getElem?_of_table? {n : Nat} {e : Entry} (h : s.table? n = some e) : s.tables[n]? = some (some e) := by
  unfold table? at h
  split at h
  · simp at h
  · exact Option.join_eq_some_iff.1 h

theorem setTable_self {n : Nat} {e : Entry} (h : s.table? n = some e) : s.setTable n (some e) = s := by
  obtain ⟨hn, hentry⟩ := Array.getElem?_eq_some_iff.1 (getElem?_of_table? h)
  simp [setTable, Array.setIfInBounds, hn, ← hentry]

/-- A run at a site is atomic if it is clean there, and has changed nothing when its answer is itself a failure. -/
theorem Atomic.atSite {n : Nat} {serves : Bool} {table : Table} (htable : s.table? n = some (.direct serves table))
    (heapId : HeapId) {a : Site.Run Answer} (ha : ∀ heap, Site.Clean a ⟨heap, table⟩)
    (hanswer : ∀ heap answer t, a.Ends ⟨heap, table⟩ (.ok answer) t → answer.Failed → t = ⟨heap, table⟩) :
    Atomic (atSite n serves table heapId a) s := by
  apply Atomic.get_bind
  cases hheap : s.heaps[heapId]? with
  | none => exact .of_keeps (.pure _) s
  | some heap =>
    rintro r t ⟨rfl, rfl⟩ hfailed
    have hsite : (a.run ⟨heap, table⟩).state = ⟨heap, table⟩ := by
      have hends := a.ends ⟨heap, table⟩
      rw [Action.run_mapError, Action.run_focus] at hfailed
      cases hresult : (a.run ⟨heap, table⟩).result with
      | ok answer =>
        rw [hresult] at hends hfailed
        exact hanswer heap answer _ hends hfailed
      | error f =>
        rw [hresult] at hends hfailed
        cases hfailed with
        | fatal hfull => exact ha heap f _ hends hfull
    rw [Action.run_mapError, Action.run_focus, hsite]
    show (s.setHeap heapId heap).setTable n (some (.direct serves table)) = s
    rw [setHeap_self hheap, setTable_self htable]

/-- The answer of a lookup is never a failure. -/
theorem Atomic.atSite_map {α : Type} {n : Nat} {serves : Bool} {table : Table}
    (htable : s.table? n = some (.direct serves table)) (heapId : HeapId) {a : Site.Run α} {f : α → Answer}
    (ha : ∀ heap, Site.Clean a ⟨heap, table⟩) (hf : ∀ x, ¬(f x).Failed) :
    Atomic (Session.atSite n serves table heapId (f <$> a)) s := by
  refine .atSite htable heapId (fun heap => (ha heap).map f) fun heap answer t hends hfailed => ?_
  obtain ⟨x, rfl, -⟩ := hends.of_map_ok
  exact absurd hfailed (hf x)

theorem Atomic.atSite_serve {n : Nat} {serves : Bool} {table : Table} (htable : s.table? n = some (.direct serves table))
    (hfits : table.slots.Fits) (heapId : HeapId) (request : Request) :
    Atomic (Session.atSite n serves table heapId (.response <$> Site.serve request)) s := by
  refine .atSite htable heapId (fun heap => (Site.serve_clean hfits request).map _) fun heap answer t hends hfailed => ?_
  obtain ⟨response, rfl, hserved⟩ := hends.of_map_ok
  cases hfailed with
  | rejected text => exact Site.eq_of_refused hfits hserved

/-! ### Every command -/

theorem allocateAll_raises (n : HeapId) (heap : Heap) (c : ClassId) (count : Nat) :
    (allocateAll n heap c count).Raises (· = .undefinedClass) := by
  induction count generalizing heap with
  | zero => exact .pure []
  | succ count ih =>
    simp only [allocateAll]
    cases heap.allocate c with
    | some made =>
      refine .bind (.of_ok fun s => ⟨(), _, Action.modify_ends _ s⟩) fun _ => ?_
      exact .bind (ih made.2) fun _ => .pure _
    | none =>
      intro s e t hends
      exact (Except.error.inj hends.1).symm

theorem dumpTable_raises {P : Stop → Prop} (held : Option HeapId) (p : Printing) (n : Nat) :
    (dumpTable held p n).Raises P := by
  refine Action.Raises.get.bind fun s => ?_
  cases s.table? n with
  | none => exact .pure _
  | some e => exact .bind (.of_ok fun s => ⟨_, s, rfl, rfl⟩) fun _ => .pure _

theorem mapM_raises {α β : Type} {P : Stop → Prop} {f : α → Run β} (hf : ∀ x, (f x).Raises P) (l : List α) :
    (l.mapM f).Raises P := by
  induction l with
  | nil => exact .pure []
  | cons x l ih =>
    rw [List.mapM_cons]
    exact (hf x).bind fun _ => ih.bind fun _ => .pure _

theorem runOnHeap_atomic {n : HeapId} {heap : Heap} (operation : HeapOperation) :
    Atomic (runOnHeap n heap operation) s := by
  cases operation with
  | define classInfo => exact .of_ends (.classNumber s.classes.size) ⟨rfl, rfl⟩ nofun
  | allocate number count =>
    apply Atomic.get_bind
    cases s.classes[number]? with
    | some c =>
      refine Unfailing.atomic (.bind (allocateAll_raises n heap c count) fun handles => ?_) s
      exact .pure (.handles handles) nofun
    | none => exact .of_keeps (.pure _) s
  | store holder field value =>
    simp only [runOnHeap]
    cases heap.store holder field value with
    | ok stored => exact .of_ends .done ⟨rfl, rfl⟩ nofun
    | error e => exact .of_keeps (.pure _) s
  | collect during printing =>
    refine Unfailing.atomic ?_ s
    refine .bind (.of_ok fun s => ⟨(), _, Action.modify_ends _ s⟩) fun _ => ?_
    refine .bind (.of_ok fun s => ⟨(), s, Action.note_ends _ _ s⟩) fun _ => ?_
    refine .bind (mapM_raises (dumpTable_raises _ printing) during) fun dumps => ?_
    exact .pure (.collected _ _ _) nofun
  | tryAcquire => exact .of_keeps (.pure _) s
  | handleCount => exact .of_keeps (.pure _) s
  | release handles => exact .of_ends (.number _) ⟨rfl, rfl⟩ nofun
  | keep term => exact .withAddress _ term fun a => .of_ends (.kept a s.saved.size) ⟨rfl, rfl⟩ nofun
  | newHandle term =>
    refine .withAddress _ term fun a => ?_
    cases heap.newHandle a with
    | ok made => exact .of_ends (.handle made.1) ⟨rfl, rfl⟩ nofun
    | error e => exact .of_keeps (.pure _) s
  | isLive term | hashOf term | classOf term | fieldAt term _ | field term _ =>
    exact .withAddress _ term fun a => .of_keeps (.pure _) s
  | read location => exact .of_keeps (.pure _) s

theorem runOnTable_atomic (hs : s.Fits) {n : Nat} {serves : Bool} {table : Table}
    (htable : s.table? n = some (.direct serves table)) {operation : TableOperation}
    (hsingle : ∀ requests bytes capacity, operation ≠ .serveStream requests bytes capacity) :
    Atomic (runOnTable n (.direct serves table) operation) s := by
  have hfits := hs n serves table htable
  cases operation with
  | role | endIndex | isNull | slots | debug => exact .of_keeps (.pure _) s
  | slot i => exact .atSite_map htable _ (fun heap => .of_keeps (Site.slot_keeps i) _) nofun
  | indexAt location constant =>
    refine .atSite_map htable _ (fun heap => Site.tagging_clean ?_ constant) nofun
    exact .bind (Site.read_keeps location) fun a => Site.indexOf_clean a _
  | existingIndexAt location =>
    exact .atSite_map htable _
      (fun heap => .of_keeps ((Site.read_keeps location).bind Site.existingIndexOf_keeps) _) nofun
  | indexOf term through constant =>
    refine .get_bind (.withAddress _ term fun a => ?_)
    exact .atSite_map htable _ (fun heap => Site.tagging_clean (Site.indexOf_clean a _) constant) nofun
  | existingIndexOf term through =>
    refine .get_bind (.withAddress _ term fun a => ?_)
    exact .atSite_map htable _ (fun heap => .of_keeps (Site.existingIndexOf_keeps a) _) nofun
  | pointerOf i through => exact .atSite_map htable _ (fun heap => .of_keeps (Site.pointerOf_keeps i) _) nofun
  | tag i => exact .atSite_map (f := fun _ => .done) htable _ (fun heap => .of_ok (Action.modify_ends _ _)) nofun
  | isTagged i =>
    exact .atSite_map (f := fun site => .flag (site.table.isTagged i)) htable _ (fun heap => .of_keeps .get _) nofun
  | dump printing => exact .of_keeps (fun _ => rfl) s
  | serve request =>
    cases serves with
    | true => exact .atSite_serve htable hfits _ request
    | false => exact .of_keeps (.pure _) s
  | serveObject term through =>
    cases serves with
    | true =>
      refine .get_bind (.withAddress _ term fun a => ?_)
      exact .atSite_serve htable hfits _ (.getIndex a)
    | false => exact .of_keeps (.pure _) s
  | serveStream requests bytes capacity => exact absurd rfl (hsingle requests bytes capacity)

theorem addTable_unfailing (e : Entry) : Unfailing (addTable e) := by
  refine .bind .get fun s => .bind (.of_ok fun t => ⟨(), _, Action.set_ends t _⟩) fun _ => ?_
  exact .pure (.tableNumber s.tables.size) nofun

theorem createTable_unfailing (kind : TableKind) : Unfailing (createTable kind) := by
  have hdirect : ∀ serves heap, Unfailing (addDirect serves heap) := by
    intro serves heap
    refine .bind .get fun s => ?_
    split
    · cases serves with
      | true => exact .bind (.of_ok fun t => ⟨(), _, Action.set_ends t _⟩) fun _ => addTable_unfailing _
      | false => exact addTable_unfailing _
    · exact .pure .noSuchNumber nofun
  have hserver : ∀ client channel, Unfailing (addServer client channel) := by
    intro client channel
    refine .bind .get fun s => ?_
    split
    · exact addTable_unfailing _
    · exact .pure .noTable nofun
  cases kind with
  | sameProcess heap | client heap => exact hdirect _ heap
  | loopback client | stream client => exact hserver client _
  | scripted | bytes => exact addTable_unfailing _

theorem discard_raises {P : Stop → Prop} (n : Nat) : (discard n).Raises P := by
  have hgap : (modify (·.setTable n none) : Run Unit).Raises P := .of_ok fun s => ⟨(), _, Action.modify_ends _ s⟩
  refine Action.Raises.get.bind fun s => ?_
  split
  · rename_i serves table _
    refine .bind (.bind .get fun t => ?_) fun _ => hgap
    cases t.heaps[table.heapId]? with
    | some heap => exact .of_ok fun u => ⟨.done, _, rfl, rfl⟩
    | none => exact .pure _
  · exact hgap

theorem channelAnswer_not_failed (channel : Link) : ¬(channelAnswer channel).Failed := by
  cases channel with
  | route route => cases route with | loopback | stream => exact nofun
  | scripted | bytes => exact nofun

theorem step_atomic (hs : s.Fits) {c : Command} (hc : c.Single s) : Atomic (step c) s := by
  cases c with
  | createHeap base alignment seed =>
    simp only [step]
    apply Atomic.get_bind
    dsimp only
    cases Heap.create s.heaps.size _ with
    | ok heap => exact .of_ends (.heapNumber s.heaps.size) ⟨rfl, rfl⟩ nofun
    | error e => exact .of_keeps (.pure _) s
  | onHeap heapId operation =>
    simp only [step]
    apply Atomic.get_bind
    cases s.heaps[heapId]? with
    | some heap => exact runOnHeap_atomic operation
    | none => exact .of_keeps (.pure _) s
  | createTable kind => exact (createTable_unfailing kind).atomic s
  | onTable n operation =>
    simp only [step]
    apply Atomic.get_bind
    cases htable : s.table? n with
    | none => exact .of_keeps (.pure _) s
    | some e =>
      cases e with
      | direct serves table => exact runOnTable_atomic hs htable hc.2
      | server server client => exact absurd htable (hc.1 server client)
  | dropTable n =>
    simp only [step]
    apply Atomic.get_bind
    cases s.idleTable? n with
    | none => exact .of_keeps (.pure _) s
    | some e => exact (Unfailing.bind (discard_raises n) fun _ => .pure (.flag true) nofun).atomic s
  | intoChannel n =>
    simp only [step]
    apply Atomic.get_bind
    split
    · rename_i server client _
      exact .of_ends (channelAnswer server.channel) ⟨rfl, rfl⟩ (channelAnswer_not_failed _)
    · exact .of_keeps (.pure _) s
  | compile n pass options => exact hc.elim

theorem perform_eq (c : Command) (s : Session) :
    perform c s = (answerOf ((step c).run s).result, ((step c).run s).log, ((step c).run s).state) := by
  unfold perform
  obtain ⟨result, t, log⟩ := (step c).run s
  cases result with
  | ok answer => rfl
  | error stop => cases stop <;> rfl

/-- An operation that fails leaves the session as it was, in whatever state that is. -/
theorem perform_eq_of_failed (hs : s.Fits) {c : Command} (hc : c.Single s) (h : (perform c s).1.Failed) :
    (perform c s).2.2 = s := by
  rw [perform_eq] at h ⊢
  exact step_atomic hs hc _ _ ((step c).ends s) h

/-- Someone has given back the handle of the second slot, so that a search for a third object fails there. -/
def broken : Session := [Command.createHeap none none none, .onHeap 0 (.define ⟨"p/Node", [], false⟩),
  .onHeap 0 (.allocate 0 3), .createTable (.sameProcess 0), .onTable 0 (.indexAt (.handle ⟨0⟩) false),
  .onTable 0 (.indexAt (.handle ⟨1⟩) true), .onHeap 0 (.release [⟨4⟩])].foldl (fun s c => (perform c s).2.2) .empty

theorem perform_eq_of_broken : broken.Fits ∧ Command.Single broken (.onTable 0 (.indexAt (.handle ⟨2⟩) true)) ∧
    (perform (.onTable 0 (.indexAt (.handle ⟨2⟩) true)) broken).1 = .fatal (.heap (.invalidHandle ⟨4⟩)) ∧
    (perform (.onTable 0 (.indexAt (.handle ⟨2⟩) true)) broken).2.2 = broken := by
  have htables : broken.tables = #[some (.direct false ⟨0, ⟨[⟨3⟩, ⟨4⟩]⟩, ⟨#[4]⟩⟩)] := rfl
  have htable : ∀ n e, broken.table? n = some e → e = .direct false ⟨0, ⟨[⟨3⟩, ⟨4⟩]⟩, ⟨#[4]⟩⟩ := by
    intro n e h
    obtain ⟨hn, hentry⟩ := Array.getElem?_eq_some_iff.1 (getElem?_of_table? h)
    simp only [htables, List.getElem_toArray, List.getElem_singleton, Option.some.injEq] at hentry
    exact hentry.symm
  have hfits : broken.Fits := by
    intro n serves table h
    obtain ⟨-, rfl⟩ := Entry.direct.inj (htable n _ h)
    show 2 + 1 < 4294967295
    decide
  have hsingle : Command.Single broken (.onTable 0 (.indexAt (.handle ⟨2⟩) true)) :=
    ⟨fun server client h => (nomatch htable 0 _ h), nofun⟩
  have hanswer : (perform (.onTable 0 (.indexAt (.handle ⟨2⟩) true)) broken).1 =
    .fatal (.heap (.invalidHandle ⟨4⟩)) := rfl
  exact ⟨hfits, hsingle, hanswer, perform_eq_of_failed hfits hsingle (hanswer ▸ .fatal nofun)⟩

end Session

end KnownObjects
