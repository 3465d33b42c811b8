import Mathlib.Data.List.Forall2
import KnownObjects.Proofs.Split.Network
import KnownObjects.Proofs.Table.Known

/-!
# One process or two

A script of operations on a heap and on a table can be run in one process, where the table reads the heap itself, or with a server whose only client owns the heap. Both give the same answers, operation by operation, and what fails in one fails in the other: the error of the heap that is fatal in one process is the text with which the client refuses in the other, and all other errors are the same. Afterwards heap, slots and tags are equal too, so that a script goes on alike after a failure.

The script must not give back handles that the table holds, and addresses must not run out. Over a stream it must also be short enough not to fill the table, because a stream does not pass on that the table is full.
-/

namespace KnownObjects

inductive Step where
  | heap (operation : Heap.Operation)
  | table (operation : Table.Operation)
deriving DecidableEq

namespace Step

def atSite : Step → Site.Operation
  | heap operation => .heap operation
  | table operation => .table operation

def atNetwork : Step → Network.Operation
  | heap operation => .client (.heap operation)
  | table operation => .server 0 (.table operation)

end Step

/-- The answers of a script in one process, and the state that it leaves. -/
def Site.runAll (s : Site) : List Step → List (Except Fatal Table.Answer) × Site
  | [] => ([], s)
  | step :: rest =>
    let others := Site.runAll (step.atSite.next s) rest
    (((Site.perform step.atSite).run s).result :: others.1, others.2)

/-- The answers of a script at the first server of a network, and the network that it leaves. -/
def Network.runAll (n : Network) : List Step → List (Except Fatal Table.Answer) × Network
  | [] => ([], n)
  | step :: rest =>
    let others := Network.runAll (n.perform step.atNetwork).2 rest
    ((n.perform step.atNetwork).1 :: others.1, others.2)

/-- No step gives back a handle that the table holds, and none runs out of addresses. -/
def Site.Permits (s : Site) : List Step → Prop
  | [] => True
  | step :: rest =>
    (∀ h ∈ s.table.slots.handles, h ∉ step.atSite.released) ∧ (step.atSite.next s).heap.WithinSpace ∧
      Site.Permits (step.atSite.next s) rest

instance Site.decidablePermits : (s : Site) → (script : List Step) → Decidable (s.Permits script)
  | _, [] => isTrue trivial
  | s, step :: rest =>
    have := decidablePermits (step.atSite.next s) rest
    inferInstanceAs (Decidable (_ ∧ _ ∧ _))

/-- The answers of the two topologies to one operation. -/
inductive Alike : Except Fatal Table.Answer → Except Fatal Table.Answer → Prop
  | answered (answer : Table.Answer) : Alike (.ok answer) (.ok answer)
  | refused (e : HeapError) : Alike (.error (.heap e)) (.error (.clientRejected e.message))
  | outOfRange (i bound : Index) : Alike (.error (.indexOutOfRange i bound)) (.error (.indexOutOfRange i bound))
  | full : Alike (.error .tableFull) (.error .tableFull)

/-- The first server of a network and its client together are in the state of a table in one process. -/
structure Network.Matches (n : Network) (attachment : Attachment) (s : Site) : Prop where
  heap : n.client.heap = s.heap
  client : n.client.table.slots = s.table.slots
  heapId : n.client.table.heapId = s.table.heapId
  server : ∃ server, n.servers[0]? = some server ∧ server.channel.attachment = attachment ∧
    server.channel.failure? = none ∧ server.slots = s.table.slots ∧ server.constantElements = s.table.constantElements

/-! ### Services at the client -/

theorem Site.serve_ends_of_looked {s t : Site} {location : Location} {a : Address} {r : Except Fatal Index}
    (hs : s.table.slots.Fits) (hread : s.heap.read location = .ok a) (h : Looked a s r t) :
    ∃ q, (serve (.getIndexAt location)).Ends s q t ∧
      ((∃ i slot, r = .ok i ∧ q = .ok (.reply (.index i slot))) ∨ ∃ f, r = .error f ∧ q = .error f) := by
  have hends := ends_of_looked h
  cases r with
  | ok i =>
    obtain ⟨slot, hslot⟩ := h.exists_slot hs
    exact ⟨_, serve_getIndexAt_ends hread (indexReply_ends hends hslot), Or.inl ⟨i, slot, rfl, rfl⟩⟩
  | error f =>
    have hreply : (indexReply a).Ends s (.error f) t := hends.bind_error
    exact ⟨_, serve_getIndexAt_ends hread hreply, Or.inr ⟨f, rfl, rfl⟩⟩

/-! ### One step -/

/-- The operation has alike answers on both sides, and leaves them in matching states. -/
def Step.RunsAlike (step : Step) (attachment : Attachment) (s : Site) (n : Network) : Prop :=
  Alike ((Site.perform step.atSite).run s).result (n.perform step.atNetwork).1 ∧
    (n.perform step.atNetwork).2.Matches attachment (step.atSite.next s)

variable {attachment : Attachment}

theorem Step.runsAlike_of_ends {step : Step} {s t : Site} {n m : Network} {r q : Except Fatal Table.Answer}
    (hsite : (Site.perform step.atSite).Ends s r t) (hnetwork : n.perform step.atNetwork = (q, m)) (halike : Alike r q)
    (hmatch : m.Matches attachment t) : step.RunsAlike attachment s n := by
  simp only [Step.RunsAlike, Site.Operation.next]
  rw [hsite.1, hsite.2, hnetwork]
  exact ⟨halike, hmatch⟩

theorem Network.matches_of_set {n : Network} {t u : Site} {server after : Server Route}
    (hserver : n.servers[0]? = some server) (hattachment : after.channel.attachment = attachment)
    (hgoing : after.channel.failure? = none) (hheap : u.heap = t.heap) (hclient : u.table.slots = t.table.slots)
    (hid : u.table.heapId = t.table.heapId) (hslots : after.slots = u.table.slots)
    (htags : after.constantElements = t.table.constantElements) :
    Network.Matches ⟨u, n.servers.set 0 after⟩ attachment t :=
  ⟨hheap, hclient, hid, after, List.getElem?_set_self (List.getElem?_eq_some_iff.1 hserver).1, hattachment, hgoing,
    hslots.trans hclient, htags⟩

section

variable {s : Site} {n : Network} {known : List Nat} (hs : s.Knows known) (hn : n.Sound) (hmatch : n.Matches attachment s)

include hn hmatch

theorem plain_alike {operation : Table.Operation} {r : Except Fatal Table.Answer} {tags : IndexSet}
    (hplain : operation.plain? s.table.slots s.table.constantElements = some (r, tags)) :
    (Step.table operation).RunsAlike attachment s n := by
  obtain ⟨server, hserver, hattachment, hgoing, hslots, htags⟩ := hmatch.server
  obtain ⟨q, after, u, hperform, -, hperformed⟩ := hn.performed hserver (.table operation)
  have hends := Site.onTable_ends_of_plain hplain
  have hasks := Server.request?_eq_none_of_plain hplain
  have halike : Alike r r := by
    cases r with
    | ok answer => exact .answered answer
    | error f =>
      obtain ⟨i, rfl⟩ := Table.Operation.plain?_error hplain
      exact .outOfRange i _
  cases hperformed with
  | plain hplain' =>
    rw [hslots, htags, hplain] at hplain'
    obtain ⟨rfl, rfl⟩ := Prod.mk.inj (Option.some.inj hplain')
    refine Step.runsAlike_of_ends hends hperform halike (Network.matches_of_set hserver ?_ ?_ hmatch.heap hmatch.client
      hmatch.heapId (hslots.trans hmatch.client.symm) rfl)
    · exact (Route.attachment_attach _ _).trans hattachment
    · exact (Route.failure?_attach _ _).trans hgoing
  | shown hshown => simp [Server.Operation.shown?] at hshown
  | looked | asked | unserved => simp_all [Server.Operation.request?]

theorem unread_alike {location : Location} {e : HeapError} (hread : s.heap.read location = .error e) (constant : Bool) :
    (Step.table (.indexAt location constant)).RunsAlike attachment s n ∧
      (Step.table (.existingIndexAt location)).RunsAlike attachment s n := by
  obtain ⟨server, hserver, hattachment, hgoing, hslots, htags⟩ := hmatch.server
  obtain ⟨hindex, hexisting⟩ := Site.ends_of_unread hread
  obtain ⟨hserve, hserve'⟩ := Site.serve_ends_of_unread (s := n.client) (by rw [hmatch.heap]; exact hread)
  have hafter : ∀ m : Route, m.attachment = server.channel.attachment → m.failure? = none →
      Network.Matches ⟨n.client, n.servers.set 0 { server with channel := m.attach none }⟩ attachment s := by
    intro m hsame hstill
    refine Network.matches_of_set hserver ?_ ?_ hmatch.heap hmatch.client hmatch.heapId
      (hslots.trans hmatch.client.symm) htags
    · exact (Route.attachment_attach m none).trans (hsame.trans hattachment)
    · exact (Route.failure?_attach m none).trans hstill
  constructor
  · obtain ⟨p, m, slots, r, hperform, hpasses, htook⟩ := hn.took hserver hgoing hserve constant
    obtain ⟨rfl, hstill⟩ := hpasses.eq_of_ok
    cases htook
    exact Step.runsAlike_of_ends ((hindex constant).map Table.Answer.index) hperform (.refused e)
      (hafter m hpasses.attachment_eq hstill)
  · obtain ⟨p, m, r, hperform, hpasses, hrelayed⟩ := hn.relayed hserver hgoing hserve'
    obtain ⟨rfl, hstill⟩ := hpasses.eq_of_ok
    cases hrelayed
    exact Step.runsAlike_of_ends (hexisting.map Table.Answer.index) hperform (.refused e)
      (hafter m hpasses.attachment_eq hstill)

include hs

omit hn hmatch in
/-- With room for one more slot, or over a loopback, a server is told what became of a lookup in one process. -/
theorem passed_of_room (hroom : attachment = .loopback ∨ s.table.slots.handles.length + 2 < 4294967295) {l m : Route}
    (hl : l.attachment = attachment) {a : Address} (ha : a = .null ∨ s.heap.isLive a = true) {r : Except Fatal Index}
    {q p : Except Fatal Response} {t : Site} (hlooked : Site.Looked a s r t)
    (hanswer : (∃ i slot, r = .ok i ∧ q = .ok (.reply (.index i slot))) ∨ ∃ f, r = .error f ∧ q = .error f)
    (hpasses : l.Passes q p m) : p = q ∧ m.failure? = none := by
  rcases hanswer with ⟨i, slot, rfl, rfl⟩ | ⟨f, rfl, rfl⟩
  · exact hpasses.eq_of_ok
  · rcases hroom with rfl | hroom
    · exact hpasses.eq_of_loopback hl
    · obtain rfl := (hs.looked ha hlooked).2 f rfl
      cases hlooked with
      | full _ _ _ happend =>
        rw [hs.fits.append?, if_pos hroom] at happend
        simp at happend

theorem indexAt_alike (hroom : attachment = .loopback ∨ s.table.slots.handles.length + 2 < 4294967295)
    (location : Location) (constant : Bool) : (Step.table (.indexAt location constant)).RunsAlike attachment s n := by
  cases hread : s.heap.read location with
  | error e => exact (unread_alike hn hmatch hread constant).1
  | ok a =>
    obtain ⟨server, hserver, hattachment, hgoing, hslots, htags⟩ := hmatch.server
    obtain ⟨r, t, hends, hlooked⟩ := Site.exists_looked a s
    have hlocal := (Site.indexAt_ends hread hends constant).map Table.Answer.index
    have hclient := hlooked.of_same hmatch.heap hmatch.client hmatch.heapId
    obtain ⟨q, hserve, hanswer⟩ :=
      Site.serve_ends_of_looked hn.fits (by rw [hmatch.heap]; exact hread) hclient
    obtain ⟨p, m, slots, r', hperform, hpasses, htook⟩ := hn.took hserver hgoing hserve constant
    obtain ⟨rfl, hstill⟩ :=
      passed_of_room hs hroom hattachment (hs.heap.isLive_of_read hread) hlooked hanswer hpasses
    have hperformed : Server.Performed server n.client (.table (.indexAt location constant)) (r'.map .index)
        ⟨m, slots, server.constantElements.tagAfter constant r'⟩ _ := .looked hgoing hserve hpasses htook
    have hsame := hslots.trans hmatch.client.symm
    have hlearnt := hperformed.slots_eq hn.fits hsame
    -- The server hears what the lookup gave in one process, since the client is never ahead of it.
    have hr : r' = r := by
      rcases hanswer with ⟨i, slot, rfl, rfl⟩ | ⟨f, rfl, rfl⟩
      · cases htook with
        | known | learnt => rfl
        | ahead => simpa [Fatal.isAhead] using hperformed.not_ahead hn.fits hsame
      · cases htook
        rfl
    subst hr
    have halike : Alike (r'.map .index) (r'.map .index) := by
      cases r' with
      | ok i => exact .answered _
      | error f =>
        obtain rfl := (hs.looked (hs.heap.isLive_of_read hread) hlooked).2 f rfl
        exact .full
    have htable := hlooked.table_eq
    refine Step.runsAlike_of_ends hlocal hperform halike
      (Network.matches_of_set hserver ?_ ?_ rfl rfl ?_ hlearnt ?_)
    · exact (Route.attachment_attach m none).trans (hpasses.attachment_eq.trans hattachment)
    · exact (Route.failure?_attach m none).trans hstill
    · show n.client.table.heapId = t.table.heapId
      rw [htable, hmatch.heapId]
    · show server.constantElements.tagAfter constant r' = t.table.constantElements.tagAfter constant r'
      rw [htable, htags]

theorem existingIndexAt_alike (location : Location) :
    (Step.table (.existingIndexAt location)).RunsAlike attachment s n := by
  cases hread : s.heap.read location with
  | error e => exact (unread_alike hn hmatch hread false).2
  | ok a =>
    obtain ⟨server, hserver, hattachment, hgoing, hslots, htags⟩ := hmatch.server
    have hends := hs.existingIndexOf a
    have hclient : ∃ i, (Site.existingIndexOf a).Ends s (.ok i) s ∧ (Site.existingIndexOf a).Ends n.client (.ok i) n.client := by
      have hthere := Site.existingIndexOf_ends a n.client
      have hfind : n.client.table.find n.client.heap a = s.table.find s.heap a := by
        rw [Table.find, Table.find, hmatch.heap, hmatch.client]
      rw [hfind, hmatch.heap, hmatch.heapId, ← (hends.unique (Site.existingIndexOf_ends a s)).1] at hthere
      exact ⟨_, hends, hthere⟩
    obtain ⟨i, hhere, hthere⟩ := hclient
    have hserve : (Site.serve (.getExistingIndexAt location)).Ends n.client (.ok (.reply (.existingIndex i))) n.client := by
      refine (Action.note_ends _ _ _).bind (Site.withObjectAt_ends (by rw [hmatch.heap]; exact hread) ?_)
      exact hthere.bind (Action.pure_ends _ _)
    obtain ⟨p, m, r, hperform, hpasses, hrelayed⟩ := hn.relayed hserver hgoing hserve
    obtain ⟨rfl, hstill⟩ := hpasses.eq_of_ok
    cases hrelayed
    refine Step.runsAlike_of_ends ((Site.existingIndexAt_ends hread hhere).map Table.Answer.index) hperform (.answered _)
      (Network.matches_of_set hserver ?_ ?_ hmatch.heap hmatch.client hmatch.heapId (hslots.trans hmatch.client.symm) htags)
    · exact (Route.attachment_attach m none).trans (hpasses.attachment_eq.trans hattachment)
    · exact (Route.failure?_attach m none).trans hstill

theorem Step.runsAlike (hroom : attachment = .loopback ∨ s.table.slots.handles.length + 2 < 4294967295) (step : Step) :
    step.RunsAlike attachment s n := by
  cases step with
  | heap operation =>
    have hheap : n.client.heap.perform operation = s.heap.perform operation := by rw [hmatch.heap]
    have hnetwork : n.perform (.client (.heap operation)) = (.ok (.heap (s.heap.perform operation).1),
        { n with client := { n.client with heap := (s.heap.perform operation).2 } }) := by
      rw [← hheap]
      rfl
    exact Step.runsAlike_of_ends ⟨rfl, rfl⟩ hnetwork (.answered _) ⟨rfl, hmatch.client, hmatch.heapId, hmatch.server⟩
  | table operation =>
    cases operation with
    | indexAt location constant => exact indexAt_alike hs hn hmatch hroom location constant
    | existingIndexAt location => exact existingIndexAt_alike hs hn hmatch location
    | endIndex | isNull | slot | tag | isTagged => exact plain_alike hn hmatch rfl

end

/-- After a step the table still knows its objects, and at most one more. -/
theorem Site.Knows.step {s : Site} {known : List Nat} (hs : s.Knows known) (step : Step)
    (hspared : ∀ h ∈ s.table.slots.handles, h ∉ step.atSite.released)
    (hspace : (step.atSite.next s).heap.WithinSpace) : (∃ known, (step.atSite.next s).Knows known) ∧
      (step.atSite.next s).table.slots.handles.length ≤ s.table.slots.handles.length + 1 := by
  have hstays : ∀ {α : Type} {a : Run α}, a.Keeps (· = ·) → (∃ known, (a.run s).state.Knows known) ∧
      (a.run s).state.table.slots.handles.length ≤ s.table.slots.handles.length + 1 := by
    intro α a ha
    rw [← ha s]
    exact ⟨⟨known, hs⟩, Nat.le_succ _⟩
  cases step with
  | heap operation =>
    exact ⟨⟨known, hs.change (Heap.perform_change s.heap operation) hspace hspared⟩, Nat.le_succ _⟩
  | table operation =>
    cases operation with
    | endIndex | isNull | isTagged => exact ⟨⟨known, hs⟩, Nat.le_succ _⟩
    | tag i => exact ⟨⟨known, hs.heap, hs.native, hs.fits, hs.numbers⟩, Nat.le_succ _⟩
    | slot i => exact hstays ((slot_keeps i).map Table.Answer.slot)
    | existingIndexAt location =>
      exact hstays (((read_keeps location).bind existingIndexOf_keeps).map Table.Answer.index)
    | indexAt location constant =>
      cases hread : s.heap.read location with
      | error e =>
        have hnext : (Step.table (.indexAt location constant)).atSite.next s = s :=
          (((ends_of_unread hread).1 constant).map Table.Answer.index).2
        rw [hnext]
        exact ⟨⟨known, hs⟩, Nat.le_succ _⟩
      | ok a =>
        obtain ⟨r, t, hends, hlooked⟩ := exists_looked a s
        obtain ⟨⟨after, hafter⟩, -⟩ := hs.looked (hs.heap.isLive_of_read hread) hlooked
        have hlength := hlooked.length_le hs.fits
        have hnext : (Step.table (.indexAt location constant)).atSite.next s = _ :=
          ((indexAt_ends hread hends constant).map Table.Answer.index).2
        rw [hnext]
        exact ⟨⟨after, hafter.heap, hafter.native, hafter.fits, hafter.numbers⟩, hlength⟩

/-! ### Scripts -/

/-- From matching states, a permitted script is alike in both topologies. -/
theorem runAll_alike {s : Site} {n : Network} {known : List Nat} (hs : s.Knows known) (hn : n.Sound)
    (hmatch : n.Matches attachment s) (script : List Step) (hpermitted : s.Permits script)
    (hroom : attachment = .loopback ∨ s.table.slots.handles.length + script.length + 1 < 4294967295) :
    List.Forall₂ Alike (s.runAll script).1 (n.runAll script).1 ∧
      (n.runAll script).2.Matches attachment (s.runAll script).2 := by
  induction script generalizing s n known with
  | nil => exact ⟨.nil, hmatch⟩
  | cons step rest ih =>
    simp only [List.length_cons] at hroom
    obtain ⟨hspared, hspace, hrest⟩ := hpermitted
    obtain ⟨halike, hafter⟩ := step.runsAlike hs hn hmatch (hroom.imp_right fun h => by omega)
    obtain ⟨⟨after, hknows⟩, hlength⟩ := hs.step step hspared hspace
    obtain ⟨hanswers, hend⟩ := ih hknows (hn.perform step.atNetwork) hafter hrest (hroom.imp_right fun h => by omega)
    exact ⟨.cons halike hanswers, hend⟩

/-- Started on equal heaps, the two topologies agree on every script. -/
theorem agree_on_script {heap : Heap} (hheap : heap.Reached) (attachment : Attachment) (script : List Step)
    (hpermitted : (Site.mk heap (.empty heap.id)).Permits script)
    (hroom : attachment = .loopback ∨ script.length < 4294967294) :
    let site : Site := ⟨heap, .empty heap.id⟩
    let network : Network := ⟨⟨heap, .empty heap.id⟩, [.ofChannel attachment.route]⟩
    List.Forall₂ Alike (site.runAll script).1 (network.runAll script).1 ∧
      (network.runAll script).2.Matches attachment (site.runAll script).2 := by
  have hs : (Site.mk heap (.empty heap.id)).Knows [] := ⟨hheap.wellFormed, rfl, SlotStore.empty_fits, rfl⟩
  have hn := ((Network.Reached.start heap).step (.join attachment)).sound
  have hmatch : Network.Matches ⟨⟨heap, .empty heap.id⟩, [.ofChannel attachment.route]⟩ attachment ⟨heap, .empty heap.id⟩ :=
    ⟨rfl, rfl, rfl, _, rfl, attachment.attachment_route, attachment.failure?_route, rfl, rfl⟩
  refine runAll_alike hs hn hmatch script hpermitted (hroom.imp_right fun h => ?_)
  show 0 + script.length + 1 < 4294967295
  omega

/-- Two objects are met, the second one through a field after a collection, and two lookups in between fail. -/
theorem agree_on_failing_lookups : ∃ (heap : Heap) (script : List Step),
    heap.Reached ∧ (Site.mk heap (.empty heap.id)).Permits script ∧
      List.Forall₂ Alike ((Site.mk heap (.empty heap.id)).runAll script).1
        ((Network.mk ⟨heap, .empty heap.id⟩ [.ofChannel Attachment.loopback.route]).runAll script).1 := by
  let heap : Heap := ⟨0, .default, [], [], 0x1000, 0x9e3779b9, .empty, 0⟩
  have hheap : heap.Reached := @Heap.Reached.created 0 .default heap rfl
  let script : List Step := [.heap (.define ⟨"p/Node", [.ofSignature "next" "Lp/Node;", .ofSignature "n" "I"], false⟩),
    .heap (.allocate 0), .heap (.allocate 0), .table (.indexAt (.handle ⟨0⟩) true),
    .heap (.store ⟨0⟩ "next" (.ref ⟨1⟩)), .table (.indexAt (.handle ⟨9⟩) false), .heap .collect,
    .table (.indexAt (.field ⟨0⟩ 1) false), .table (.existingIndexAt (.field ⟨0⟩ 0)),
    .table (.indexAt (.field ⟨0⟩ 0) false), .table (.slot (.ofNat 2)), .table (.slot (.ofNat 3)), .table .endIndex]
  have hpermitted : (Site.mk heap (.empty heap.id)).Permits script := by decide +kernel
  exact ⟨heap, script, hheap, hpermitted, (agree_on_script hheap .loopback script hpermitted (Or.inl rfl)).1⟩

end KnownObjects
