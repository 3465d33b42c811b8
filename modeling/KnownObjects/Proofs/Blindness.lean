import KnownObjects.Proofs.Atomicity
import KnownObjects.Proofs.Split.Tags

/-!
# Runs of a session that do not see tags

Two sessions are alike if they differ in tags at most. What a channel has at its far end is set aside as well, since a client is only put there for the time of a call. A run does not see tags if it answers alike at alike sessions and leaves alike sessions. Here this is shown of each part that the commands of a session are made of. A run that does nothing but set tags, or ask for them, leaves the session alike to what it was.
-/

namespace KnownObjects

/-! ### Dumps -/

namespace Dump

variable (heap : Heap) (t : Table) (tags : IndexSet)

theorem edges_tags (shown : List (Field × Value)) :
    edges heap { t with constantElements := tags } shown = edges heap t shown := by
  induction shown with
  | nil => rfl
  | cons p rest ih => simp only [edges, ih, target?, Table.find]

theorem graph_tags : graph heap { t with constantElements := tags } = graph heap t := by
  have hnode : node heap { t with constantElements := tags } = node heap t := by
    funext h
    simp only [node, edges_tags]
  simp only [graph, hnode]

theorem read_tags (options : DumpOptions) (heap : Option Heap) :
    read { t with constantElements := tags } options heap = read t options heap := by
  cases heap with
  | none => rfl
  | some heap => simp only [read, readForest, graph_tags, Table.endIndex]

end Dump

namespace Session

/-! ### Alike sessions -/

namespace Entry

/-- An entry without its tags, and without a client that is at the end of its channel just now. -/
def bare : Entry → Entry
  | direct serves table => direct serves { table with constantElements := .empty }
  | server s client => server { s with channel := s.channel.attach none, constantElements := .empty } client

inductive Alike : Entry → Entry → Prop
  | direct (serves : Bool) (table : Table) (tags : IndexSet) :
    Alike (direct serves table) (direct serves { table with constantElements := tags })
  | server {channel other : Link} (slots : SlotStore) (tags tags' : IndexSet) (client : Option Nat) :
    channel.attach none = other.attach none → Alike (server ⟨channel, slots, tags⟩ client) (server ⟨other, slots, tags'⟩ client)

theorem alike_of_bare_eq {e f : Entry} (h : e.bare = f.bare) : e.Alike f := by
  cases e <;> cases f
  case direct.direct =>
    rename_i serves table serves' table'
    obtain ⟨heapId, slots, tags⟩ := table
    obtain ⟨heapId', slots', tags'⟩ := table'
    simp only [bare, direct.injEq, Table.mk.injEq] at h
    obtain ⟨rfl, rfl, rfl, -⟩ := h
    exact .direct _ _ tags'
  case server.server =>
    rename_i s client s' client'
    obtain ⟨channel, slots, tags⟩ := s
    obtain ⟨channel', slots', tags'⟩ := s'
    simp only [bare, server.injEq, Server.mk.injEq] at h
    obtain ⟨⟨hchannel, rfl, -⟩, rfl⟩ := h
    exact .server slots tags tags' client hchannel
  all_goals simp [bare] at h

theorem Alike.bare_eq {e f : Entry} (h : e.Alike f) : e.bare = f.bare := by
  cases h with
  | direct => rfl
  | server slots tags tags' client hchannel => simp only [bare, hchannel]

theorem Alike.role_eq {e f : Entry} (h : e.Alike f) : e.role = f.role := by
  cases h with
  | server => rfl
  | direct serves table tags => cases serves <;> rfl

theorem Alike.compilationText?_eq {e f : Entry} (h : e.Alike f) (id : Nat) : e.compilationText? id = f.compilationText? id := by
  cases h with
  | direct | server => rfl

end Entry

def bare (s : Session) : Session := { s with tables := s.tables.map (Option.map Entry.bare) }

def Alike (s t : Session) : Prop := s.bare = t.bare

theorem join_bare (s : Session) (n : Nat) : (s.bare.tables[n]?).join = ((s.tables[n]?).join).map Entry.bare := by
  simp only [bare, Array.getElem?_map]
  cases s.tables[n]? <;> rfl

theorem table?_bare (s : Session) (n : Nat) : s.bare.table? n = (s.table? n).map Entry.bare := by
  unfold table?
  rw [join_bare, apply_ite (Option.map Entry.bare)]
  rfl

theorem idleTable?_bare (s : Session) (n : Nat) : s.bare.idleTable? n = (s.idleTable? n).map Entry.bare := by
  unfold idleTable?
  rw [join_bare, apply_ite (Option.map Entry.bare)]
  rfl

theorem setTable_bare (s : Session) (n : Nat) (e : Option Entry) :
    (s.setTable n e).bare = s.bare.setTable n (e.map Entry.bare) := by
  simp only [bare, setTable, Array.map_setIfInBounds]

/-- Both entries are missing, or both are there and alike. -/
theorem rel_of_map_bare {x y : Option Entry} (h : x.map Entry.bare = y.map Entry.bare) : Option.Rel Entry.Alike x y := by
  cases x <;> cases y
  case none.none => exact .none
  case some.some => exact .some (Entry.alike_of_bare_eq (Option.some.inj h))
  all_goals cases h

@[elab_as_elim] theorem cases_rel {motive : Option Entry → Option Entry → Prop} {x y : Option Entry}
    (h : Option.Rel Entry.Alike x y) (none : motive none none)
    (some : ∀ {e f : Entry}, e.Alike f → motive (some e) (some f)) : motive x y := by
  cases h with
  | none => exact none
  | some h => exact some h

namespace Alike

variable {s t : Session}

/-- All but the tables is the same. -/
theorem exists_tables (h : Alike s t) : ∃ tables, t = { s with tables } := by
  obtain ⟨heaps, classes, saved, tables, clients, compiling, compilations⟩ := s
  obtain ⟨heaps', classes', saved', tables', clients', compiling', compilations'⟩ := t
  simp only [Alike, bare, Session.mk.injEq] at h
  obtain ⟨rfl, rfl, rfl, -, rfl, rfl, rfl⟩ := h
  exact ⟨tables', rfl⟩

theorem size_tables (h : Alike s t) : s.tables.size = t.tables.size := by
  simpa only [bare, Array.size_map] using congrArg (fun u : Session => u.tables.size) (show s.bare = t.bare from h)

theorem entry (h : Alike s t) (n : Nat) : Option.Rel Entry.Alike (s.tables[n]?).join (t.tables[n]?).join :=
  rel_of_map_bare (by rw [← join_bare, ← join_bare, h])

theorem table? (h : Alike s t) (n : Nat) : Option.Rel Entry.Alike (s.table? n) (t.table? n) :=
  rel_of_map_bare (by rw [← table?_bare, ← table?_bare, h])

theorem idleTable? (h : Alike s t) (n : Nat) : Option.Rel Entry.Alike (s.idleTable? n) (t.idleTable? n) :=
  rel_of_map_bare (by rw [← idleTable?_bare, ← idleTable?_bare, h])

theorem map (h : Alike s t) {f : Session → Session} (hf : ∀ u, (f u).bare = f u.bare) : Alike (f s) (f t) := by
  rw [Alike, hf, hf, show s.bare = t.bare from h]

theorem setHeap (h : Alike s t) (n : HeapId) (heap : Heap) : Alike (s.setHeap n heap) (t.setHeap n heap) :=
  h.map fun _ => rfl

theorem setTable (h : Alike s t) (n : Nat) {e f : Option Entry} (hef : Option.Rel Entry.Alike e f) :
    Alike (s.setTable n e) (t.setTable n f) := by
  have hentry : e.map Entry.bare = f.map Entry.bare := by
    cases hef with
    | none => rfl
    | some hef => exact congrArg some hef.bare_eq
  rw [Alike, setTable_bare, setTable_bare, h, hentry]

theorem clientSite? (h : Alike s t) (n : Nat) : Option.Rel Site.AlikeBare (s.clientSite? n) (t.clientSite? n) := by
  have hidle := h.idleTable? n
  obtain ⟨tables, rfl⟩ := h.exists_tables
  unfold Session.clientSite?
  refine cases_rel hidle .none fun hentry => ?_
  cases hentry with
  | server => exact .none
  | direct serves table tags =>
    cases serves with
    | false => exact .none
    | true =>
      dsimp only
      cases s.heaps[table.heapId]? with
      | none => exact .none
      | some heap => exact .some rfl

theorem setClientSite (h : Alike s t) (n : Nat) {client other : Option Site}
    (hclient : Option.Rel Site.AlikeBare client other) : Alike (s.setClientSite n client) (t.setClientSite n other) := by
  cases hclient with
  | none => exact h
  | some hclient =>
    obtain ⟨tags, rfl⟩ := hclient.exists_retag
    exact (h.setHeap _ _).setTable n (.some (.direct true _ tags))

theorem addressOf (h : Alike s t) (heap : Option Heap) (term : AddressTerm) : s.addressOf heap term = t.addressOf heap term := by
  obtain ⟨tables, rfl⟩ := h.exists_tables
  rfl

theorem dumpOf (h : Alike s t) (held : Option HeapId) {e f : Entry} (hef : e.Alike f) (p : Printing) :
    s.dumpOf held e p = t.dumpOf held f p := by
  obtain ⟨tables, rfl⟩ := h.exists_tables
  cases hef with
  | server => rfl
  | direct serves table tags =>
    simp only [Session.dumpOf, Dump.read_tags]

end Alike

/-! ### Runs that do not depend on tags -/

/-- The two runs answer alike at alike sessions and leave alike sessions. -/
abbrev Blind {α : Type} (a b : Run α) : Prop := Action.Coupled Alike Eq Eq a b

namespace Blind

variable {α β : Type}

theorem withAddress {heap : Option Heap} {term : AddressTerm} {next other : Address → Run Answer}
    (h : ∀ a, Blind (next a) (other a)) : Blind (withAddress heap term next) (withAddress heap term other) := by
  refine Action.Coupled.get.bind fun s t hst => ?_
  rw [hst.addressOf heap term]
  cases t.addressOf heap term with
  | ok a => exact h a
  | error answer => exact .pure rfl

theorem printEntry (held : Option HeapId) {e f : Entry} (hef : e.Alike f) (p : Printing) :
    Blind (printEntry held e p) (printEntry held f p) := by
  refine Action.Coupled.get.bind fun s t hst => ?_
  rw [hst.dumpOf held hef p]
  exact (Action.Coupled.noteAll _ _).bind_eq fun _ => .pure rfl

theorem dumpTable (held : Option HeapId) (p : Printing) (n : Nat) :
    Blind (dumpTable held p n) (dumpTable held p n) := by
  refine Action.Coupled.get.bind fun s t hst => ?_
  refine cases_rel (hst.table? n) (.pure rfl) fun hentry => ?_
  exact (printEntry held hentry p).bind_eq fun _ => .pure rfl

theorem change {f : Session → Session} (hf : ∀ u, (f u).bare = f u.bare) : Blind (modify f : Run Unit) (modify f) :=
  Action.Coupled.modify fun _ _ hst => hst.map hf

theorem setHeap (n : HeapId) (heap : Heap) :
    Blind (modify (·.setHeap n heap) : Run Unit) (modify (·.setHeap n heap)) := change fun _ => rfl

/-- At alike sessions all but the tables is the same. -/
theorem get_bind {R : α → β → Prop} {f : Session → Run α} {g : Session → Run β}
    (h : ∀ s tables, Alike s { s with tables } → Action.Coupled Alike Eq R (f s) (g { s with tables })) :
    Action.Coupled Alike Eq R (get >>= f) (get >>= g) := by
  refine Action.Coupled.get.bind fun s t hst => ?_
  obtain ⟨tables, rfl⟩ := hst.exists_tables
  exact h s tables hst

theorem createHeap (base alignment : Option UInt64) (seed : Option UInt32) :
    Blind (createHeap base alignment seed) (createHeap base alignment seed) := by
  refine get_bind fun s tables hst => ?_
  dsimp only
  split
  · rename_i heap _
    exact Action.Coupled.bind_eq (.set (hst.map (f := fun u => { u with heaps := u.heaps.push heap }) fun _ => rfl))
      fun _ => .pure rfl
  · exact .pure rfl

theorem allocateAll (n : HeapId) (heap : Heap) (c : ClassId) (count : Nat) :
    Blind (allocateAll n heap c count) (allocateAll n heap c count) := by
  induction count generalizing heap with
  | zero => exact .pure rfl
  | succ count ih =>
    simp only [Session.allocateAll]
    cases heap.allocate c with
    | some made => exact (setHeap n made.2).bind_eq fun _ => (ih made.2).bind_eq fun _ => .pure rfl
    | none => exact fun _ _ hst => ⟨.error rfl, hst⟩

theorem runOnHeap (n : HeapId) (heap : Heap) (operation : HeapOperation) :
    Blind (runOnHeap n heap operation) (runOnHeap n heap operation) := by
  cases operation with
  | define classInfo =>
    refine get_bind fun s tables hst => Action.Coupled.bind_eq (.set ?_) fun _ => .pure rfl
    exact hst.map (f := fun u => { u.setHeap n _ with classes := u.classes.push _ }) fun _ => rfl
  | allocate number count =>
    refine get_bind fun s tables _ => ?_
    dsimp only
    split
    · exact (allocateAll n heap _ count).bind_eq fun _ => .pure rfl
    · exact .pure rfl
  | store holder field value =>
    simp only [Session.runOnHeap]
    split
    · exact (setHeap n _).bind_eq fun _ => .pure rfl
    · exact .pure rfl
  | collect during printing =>
    refine (setHeap n _).bind_eq fun _ => (Action.Coupled.note _ _ _).bind_eq fun _ => ?_
    exact (Action.Coupled.mapM (dumpTable _ printing) during).bind_eq fun _ => .pure rfl
  | release handles => exact (setHeap n _).bind_eq fun _ => .pure rfl
  | keep term =>
    refine withAddress fun a => get_bind fun s tables hst => Action.Coupled.bind_eq (.set ?_) fun _ => .pure rfl
    exact hst.map (f := fun u => { u with saved := u.saved.push a }) fun _ => rfl
  | newHandle term =>
    refine withAddress fun a => ?_
    split
    · exact (setHeap n _).bind_eq fun _ => .pure rfl
    · exact .pure rfl
  | tryAcquire | handleCount | read => exact .pure rfl
  | isLive | hashOf | classOf | fieldAt | field => exact withAddress fun a => .pure rfl

theorem addTable (e : Entry) : Blind (addTable e) (addTable e) := by
  refine get_bind fun s tables hst => ?_
  have hsize : s.tables.size = tables.size := hst.size_tables
  dsimp only
  rw [hsize]
  refine Action.Coupled.bind_eq (.set ?_) fun _ => .pure rfl
  simp only [Alike, bare, Session.mk.injEq, true_and, and_true] at hst
  simp only [Alike, bare, Array.map_push, hst]

theorem createTable (kind : TableKind) : Blind (createTable kind) (createTable kind) := by
  have hdirect : ∀ serves heap, Blind (addDirect serves heap) (addDirect serves heap) := by
    intro serves heap
    refine get_bind fun s tables hst => ?_
    have hsize : s.tables.size = tables.size := hst.size_tables
    dsimp only
    rw [hsize]
    split
    · cases serves with
      | false => exact addTable _
      | true =>
        refine Action.Coupled.bind_eq (.set ?_) fun _ => addTable _
        exact hst.map (f := fun u => { u with clients := tables.size :: u.clients }) fun _ => rfl
    · exact .pure rfl
  have hserver : ∀ client channel, Blind (addServer client channel) (addServer client channel) := by
    intro client channel
    refine get_bind fun s tables _ => ?_
    dsimp only
    split
    · exact addTable _
    · exact .pure rfl
  cases kind with
  | sameProcess heap | client heap => exact hdirect _ heap
  | loopback client | stream client => exact hserver client _
  | scripted | bytes => exact addTable _

/-! #### Tables -/

theorem atSite {n : Nat} {serves : Bool} {table : Table} (tags : IndexSet) (heapId : HeapId) {a b : Site.Run Answer}
    (h : Site.Blind a b) : Blind (atSite n serves table heapId a)
      (atSite n serves { table with constantElements := tags } heapId b) := by
  refine get_bind fun s tables _ => ?_
  dsimp only
  cases s.heaps[heapId]? with
  | none => exact .pure rfl
  | some heap =>
    refine Action.Coupled.mapError (h.focus ?_ ?_) fun _ _ heq => congrArg Stop.fatal heq
    · exact fun _ _ _ => Site.alike_retag _ tags
    · intro s t x y hst hxy
      obtain ⟨tags', rfl⟩ := hxy.exists_retag
      exact (hst.setHeap heapId _).setTable n (.some (.direct serves _ tags'))

theorem atServer {n : Nat} {server other : Server Link} {client : Option Nat} {a b : Server.Run Link Answer}
    (hslots : server.slots = other.slots) (hchannel : server.channel.attach none = other.channel.attach none)
    (h : Server.Blind Link.Alike a b) : Blind (atServer n server client a) (atServer n other client b) := by
  refine Action.Coupled.get.bind fun s t hst => ?_
  have hclient : Option.Rel Site.AlikeBare (client.bind s.clientSite?) (client.bind t.clientSite?) := by
    cases client with
    | none => exact .none
    | some c => exact hst.clientSite? c
  refine Action.Coupled.mapError (h.focus ?_ ?_) fun _ _ heq => congrArg Stop.fatal heq
  · exact fun _ _ _ => ⟨hslots, Link.alike_attach hchannel hclient⟩
  · rintro s t x y hst ⟨hslots, hlinks⟩
    have hserver : Entry.Alike (.server { x with channel := x.channel.attach none } client)
        (.server { y with channel := y.channel.attach none } client) := by
      rw [hslots, hlinks.attach_none]
      exact .server _ _ _ _ rfl
    refine Alike.setTable ?_ n (.some hserver)
    cases client with
    | none => exact hst
    | some c => exact hst.setClientSite c hlinks.client?

theorem atTable {n : Nat} {e f : Entry} (hef : e.Alike f) {direct direct' : Site.Run Answer}
    {server server' : Server.Run Link Answer} (hdirect : Site.Blind direct direct')
    (hserver : Server.Blind Link.Alike server server') : Blind (atTable n e direct server) (atTable n f direct' server') := by
  cases hef with
  | direct serves table tags => exact atSite tags table.heapId hdirect
  | server slots tags tags' client hchannel => exact atServer rfl hchannel hserver

theorem discard (n : Nat) : Blind (discard n) (discard n) := by
  have hgap : Blind (modify (·.setTable n none) : Run Unit) (modify (·.setTable n none)) :=
    .modify fun _ _ hst => hst.setTable n .none
  refine Action.Coupled.get.bind fun s t hst => ?_
  refine cases_rel (hst.entry n) hgap fun hentry => ?_
  cases hentry with
  | server => exact hgap
  | direct serves table tags =>
    refine (atSite tags table.heapId ?_).bind_eq fun _ => hgap
    exact Site.Blind.dropTable.bind_eq fun _ => .pure rfl

theorem atSiteWith {n : Nat} {serves : Bool} {table : Table} (tags : IndexSet) {heapId : HeapId} {term : AddressTerm}
    {a b : Address → Site.Run Answer} (h : ∀ object, Site.Blind (a object) (b object)) :
    Blind (atSiteWith n serves table heapId term a)
      (atSiteWith n serves { table with constantElements := tags } heapId term b) :=
  get_bind fun _ _ _ => withAddress fun object => atSite tags heapId (h object)

theorem atClient {n : Nat} {e f : Entry} (hef : e.Alike f) {a b : Site.Run Answer} (h : Site.Blind a b) :
    Blind (atClient n e a) (atClient n f b) := by
  cases hef with
  | server => exact .pure rfl
  | direct serves table tags =>
    cases serves with
    | false => exact .pure rfl
    | true => exact atSite tags table.heapId h

/-! #### Compilations -/

theorem compilationDump (n : Nat) (options : DumpOptions) : Blind (compilationDump n options) (compilationDump n options) := by
  refine Action.Coupled.get.bind fun s t hst => ?_
  refine cases_rel (hst.entry n) (.pure rfl) fun hentry => ?_
  exact (printEntry none hentry _).bind_eq fun _ => .pure rfl

theorem settingApart {R : α → β → Prop} (n : Nat) {a : Run α} {b : Run β} (h : Action.Coupled Alike Eq R a b) :
    Action.Coupled Alike Eq (Except.Matched Eq R) (settingApart n a) (settingApart n b) := by
  refine Action.Coupled.bind_eq (change fun _ => rfl) fun _ => h.attempt.bind fun x y hxy => ?_
  exact Action.Coupled.bind_eq (change fun _ => rfl) fun _ => .pure hxy

theorem conclude (n id : Nat) (endIndex : Session → Index) (r : Except Fatal Unit) :
    Blind (Compilation.conclude id endIndex (Session.discard n) r) (Compilation.conclude id endIndex (Session.discard n) r) := by
  cases r with
  | ok x => exact Action.Coupled.get.bind fun _ _ _ => (Action.Coupled.note _ _ _).bind_eq fun _ => .pure rfl
  | error f => exact (Action.Coupled.note _ _ _).bind_eq fun _ => (discard n).bind_eq fun _ => .pure rfl

end Blind

/-! ### Runs that only see to tags -/

theorem setTable_alike {s : Session} {n : Nat} {e f : Entry} (he : s.table? n = some e) (hef : e.Alike f) :
    Alike (s.setTable n (some f)) s := by
  have h : Alike (s.setTable n (some e)) (s.setTable n (some f)) := Alike.setTable rfl n (.some hef)
  rw [setTable_self he] at h
  exact Eq.symm h

theorem setClientSite_self (s : Session) (n : Nat) : s.setClientSite n (s.clientSite? n) = s := by
  unfold clientSite?
  split
  · rename_i table htable
    cases hheap : s.heaps[table.heapId]? with
    | none => rfl
    | some heap =>
      have hentry : s.table? n = some (.direct true table) := by
        unfold idleTable? at htable
        split at htable
        · cases htable
        · rename_i hidle
          rw [table?, if_neg (fun h => hidle h.1), htable]
      show (s.setHeap table.heapId heap).setTable n (some (.direct true table)) = s
      rw [setHeap_self hheap, setTable_self hentry]
  · rfl

theorem setClientSite_attached (s : Session) (n : Nat) (l : Link) :
    s.setClientSite n (l.attach (s.clientSite? n)).client? = s := by
  cases l with
  | route l =>
    show s.setClientSite n (l.attach _).client? = s
    rw [Route.client?_attach]
    exact setClientSite_self s n
  | scripted | bytes => rfl

/-- What leaves a table alike leaves the session alike. -/
theorem atTable_skips {s : Session} {n : Nat} {e : Entry} (he : s.table? n = some e) {direct : Site.Run Answer}
    {server : Server.Run Link Answer} (hdirect : Action.Coupled Site.AlikeBare Eq (fun _ (_ : Unit) => True) direct (pure ()))
    (hserver : Action.Coupled (Server.Alike Eq) Eq (fun _ (_ : Unit) => True) server (pure ())) :
    ∃ answer t, (atTable n e direct server).Ends s (.ok answer) t ∧ Alike t s := by
  cases e with
  | direct serves table =>
    cases hheap : s.heaps[table.heapId]? with
    | none =>
      refine ⟨.noSuchNumber, s, (Action.get_ends s).bind ?_, rfl⟩
      rw [hheap]
      exact Action.pure_ends _ s
    | some heap =>
      obtain ⟨answer, site, hends, -, hsite⟩ := hdirect.exists_ends (s := ⟨heap, table⟩) rfl
      obtain ⟨tags, rfl⟩ := Site.AlikeBare.exists_retag (Eq.symm hsite)
      refine ⟨answer, (s.setHeap table.heapId heap).setTable n (some (.direct serves { table with constantElements := tags })),
        (Action.get_ends s).bind ?_, ?_⟩
      · rw [hheap]
        exact Action.Ends.mapError (Action.Ends.focus (s := s) (fun _ => Site.mk heap table) _ hends) _
      · rw [setHeap_self hheap]
        exact setTable_alike he (.direct serves table tags)
  | server server client =>
    obtain ⟨answer, ⟨channel, slots, tags⟩, hends, -, hslots, hchannel⟩ := hserver.exists_ends
      (s := { server with channel := server.channel.attach (client.bind s.clientSite?) }) ⟨rfl, rfl⟩
    obtain rfl : slots = server.slots := hslots
    obtain rfl : channel = server.channel.attach (client.bind s.clientSite?) := hchannel
    refine ⟨answer, _, (Action.get_ends s).bind (Action.Ends.mapError (Action.Ends.focus (s := s)
      (fun _ => { server with channel := server.channel.attach (client.bind s.clientSite?) }) _ hends) _), ?_⟩
    have hentry : Entry.Alike (.server server client)
        (.server ⟨(server.channel.attach (client.bind s.clientSite?)).attach none, server.slots, tags⟩ client) := by
      refine .server _ _ _ _ ?_
      rw [Link.attach_attach, Link.attach_attach]
    -- The client went to the far end and was not asked, so it comes back as it was.
    cases client with
    | none => exact setTable_alike he hentry
    | some c =>
      show Alike ((s.setClientSite c (server.channel.attach (s.clientSite? c)).client?).setTable n _) s
      rw [setClientSite_attached]
      exact setTable_alike he hentry

end Session

end KnownObjects
