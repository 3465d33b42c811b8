import KnownObjects.Proofs.Split.Facing

/-!
# Several servers of one client

A network is a client with its heap and any number of servers with a route to it, each over a loopback or over a stream. One step is an operation of a server, an operation at the client, or a further server that joins with an empty table, and steps come in any order. Nothing is asked of the heap or of what happens to it.

The slots of every server are the beginning of the client's slots, after every step and however the step ended, and so a server never finds itself contradicted: a lookup that the client answers succeeds if the client's index is at most the server's next one, and is ahead otherwise. Where the client gave up while it served over a stream, that stream is closed to its server from then on, and nothing else changes. A server through which alone the client grows has all of the client's slots, and the client is never ahead of it.
-/

namespace KnownObjects

theorem Attachment.resting (attachment : Attachment) : attachment.route.Resting := by
  cases attachment with
  | loopback => exact .loopback _
  | stream => exact .stream ⟨rfl, rfl⟩

@[simp] theorem Attachment.attachment_route (attachment : Attachment) : attachment.route.attachment = attachment := by
  cases attachment <;> rfl

@[simp] theorem Attachment.failure?_route (attachment : Attachment) : attachment.route.failure? = none := by
  cases attachment <;> rfl

/-- A client and the servers with a route to it. While no operation of a server runs, the client is not at the end of any route. -/
structure Network where
  client : Site
  servers : List (Server Route)

namespace Network

inductive Operation where
  | client (operation : Site.Operation)
  | server (k : Nat) (operation : Server.Operation)
  | join (attachment : Attachment)
deriving DecidableEq

/-- What an operation answers, and the network that it leaves. -/
def perform (n : Network) : Operation → Except Fatal Table.Answer × Network
  | .client operation =>
    let o := (Site.perform operation).run n.client
    (o.result, { n with client := o.state })
  | .server k operation =>
    match n.servers[k]? with
    | some server =>
      let o := (Server.perform operation).run (server.facing n.client)
      (o.result, {
        client := o.state.channel.client?.getD n.client
        servers := n.servers.set k { o.state with channel := o.state.channel.attach none } })
    | none => (.ok .done, n)
  | .join attachment => (.ok .done, { n with servers := n.servers ++ [.ofChannel attachment.route] })

/-- The networks that come about around a client that starts with an empty table on any heap. -/
inductive Reached : Network → Prop
  | start (heap : Heap) : Reached ⟨⟨heap, .empty heap.id⟩, []⟩
  | step {n : Network} (operation : Operation) : Reached n → Reached (n.perform operation).2

/-- The networks in which the client's slots have grown only in operations of one server. -/
inductive ReachedThrough (k : Nat) : Network → Prop
  | start (heap : Heap) : ReachedThrough k ⟨⟨heap, .empty heap.id⟩, []⟩
  | own {n : Network} (operation : Server.Operation) : ReachedThrough k n →
    ReachedThrough k (n.perform (.server k operation)).2
  | other {n : Network} (operation : Operation) : ReachedThrough k n →
    (n.perform operation).2.client.table.slots = n.client.table.slots → ReachedThrough k (n.perform operation).2

/-- No server contradicts the client. -/
structure Agrees (n : Network) : Prop where
  initial : ∀ server ∈ n.servers, server.slots.handles <+: n.client.table.slots.handles
  consistent : ∀ (k : Nat) (operation : Server.Operation) (f : Fatal),
    (n.perform (.server k operation)).1 = .error f → f.isContradiction = false
  /-- As long as the client serves over its route, the lookup of a server succeeds if the client's index is at most the next one of the server. -/
  near : ∀ (k : Nat) (server : Server Route) (location : Location) (constant : Bool) (i : Index) (slot : Slot) (t : Site),
    n.servers[k]? = some server → server.channel.failure? = none →
    (Site.serve (.getIndexAt location)).Ends n.client (.ok (.reply (.index i slot))) t → i ≤ server.endIndex → ∃ after : Server Route, after.slots.get? i = some slot ∧
      n.perform (.server k (.table (.indexAt location constant))) = (.ok (.index i), ⟨t, n.servers.set k after⟩)
  /-- Otherwise it fails, and leaves the server's table as it was. -/
  ahead : ∀ (k : Nat) (server : Server Route) (location : Location) (constant : Bool) (i : Index) (slot : Slot) (t : Site),
    n.servers[k]? = some server → server.channel.failure? = none →
    (Site.serve (.getIndexAt location)).Ends n.client (.ok (.reply (.index i slot))) t →
    ¬i ≤ server.endIndex → ∃ channel : Route,
      n.perform (.server k (.table (.indexAt location constant))) =
        (.error (.indexAhead i server.endIndex), ⟨t, n.servers.set k { server with channel }⟩)
  /-- A server whose stream was closed asks in vain. -/
  closed : ∀ (k : Nat) (server : Server Route) (operation : Server.Operation) (f : Fatal),
    n.servers[k]? = some server → server.channel.failure? = some f → operation.request?.isSome = true →
    ∃ channel : Route, channel.failure? = some f ∧ n.perform (.server k operation) =
      (.error (.channel .closed), ⟨n.client, n.servers.set k { server with channel }⟩)

/-- One server has all of the client's slots. -/
structure Mirrors (n : Network) (k : Nat) : Prop where
  slots : ∀ server, n.servers[k]? = some server → server.slots = n.client.table.slots
  neverAhead : ∀ (operation : Server.Operation) (f : Fatal),
    (n.perform (.server k operation)).1 = .error f → f.isAhead = false
  existing : ∀ (server : Server Route) (location : Location) (i : Index), n.servers[k]? = some server →
    (n.perform (.server k (.table (.existingIndexAt location)))).1 = .ok (.index i) →
    i = .unknown ∨ i < server.endIndex

/-- Every server is at rest, and its slots are the beginning of the client's. -/
structure Sound (n : Network) : Prop where
  fits : n.client.table.slots.Fits
  resting : ∀ server ∈ n.servers, server.channel.Resting
  initial : ∀ server ∈ n.servers, server.slots.handles <+: n.client.table.slots.handles

theorem perform_absent {n : Network} {k : Nat} (h : n.servers[k]? = none) (operation : Server.Operation) :
    n.perform (.server k operation) = (.ok .done, n) := by
  simp only [perform]
  simp only [h]

namespace Sound

variable {n : Network} {k : Nat} {server : Server Route}

theorem performed (hn : n.Sound) (hserver : n.servers[k]? = some server) (operation : Server.Operation) :
    ∃ r after t, n.perform (.server k operation) =
        (r, ⟨t, n.servers.set k { after with channel := after.channel.attach none }⟩) ∧
      after.channel.Resting ∧ Server.Performed server n.client operation r after t := by
  have hmem := List.mem_of_getElem? hserver
  obtain ⟨r, after, t, hends, hrest, hperformed⟩ :=
    Server.exists_performed (hn.resting server hmem) hn.fits (hn.initial server hmem) operation
  refine ⟨r, after, t, ?_, hrest, hperformed⟩
  simp only [Network.perform]
  simp only [hserver]
  rw [hends.1, hends.2]
  have hclient : (after.facing t).channel.client? = some t := Route.client?_attach _ _
  have hdetached : (after.facing t).channel.attach none = after.channel.attach none := Route.attach_attach _ _ _
  rw [hclient, hdetached]
  rfl

/-- A lookup of a server that the client answers in a given way. -/
theorem took (hn : n.Sound) (hserver : n.servers[k]? = some server) (hgoing : server.channel.failure? = none)
    {location : Location} {q : Except Fatal Response} {t : Site}
    (hserve : (Site.serve (.getIndexAt location)).Ends n.client q t) (constant : Bool) :
    ∃ (p : Except Fatal Response) (m : Route) (slots : SlotStore) (r : Except Fatal Index),
      n.perform (.server k (.table (.indexAt location constant))) =
        (r.map .index, ⟨t, n.servers.set k ⟨m.attach none, slots, server.constantElements.tagAfter constant r⟩⟩) ∧
      server.channel.Passes q p m ∧ Server.Took server.slots p r slots := by
  obtain ⟨r, after, u, hperform, -, hperformed⟩ := hn.performed hserver (.table (.indexAt location constant))
  cases hperformed with
  | plain hplain => simp [Table.Operation.plain?] at hplain
  | shown hshown => simp [Server.Operation.shown?] at hshown
  | unserved _ hover => simp [hgoing] at hover
  | looked _ hserve' hpasses htook =>
    obtain ⟨rfl, rfl⟩ := hserve.unique hserve'
    exact ⟨_, _, _, _, hperform, hpasses, htook⟩

theorem relayed (hn : n.Sound) (hserver : n.servers[k]? = some server) (hgoing : server.channel.failure? = none)
    {location : Location} {q : Except Fatal Response} {t : Site}
    (hserve : (Site.serve (.getExistingIndexAt location)).Ends n.client q t) :
    ∃ (p : Except Fatal Response) (m : Route) (r : Except Fatal Index),
      n.perform (.server k (.table (.existingIndexAt location))) =
        (r.map .index, ⟨t, n.servers.set k { server with channel := m.attach none }⟩) ∧
      server.channel.Passes q p m ∧ Server.Relayed p r := by
  obtain ⟨r, after, u, hperform, -, hperformed⟩ := hn.performed hserver (.table (.existingIndexAt location))
  cases hperformed with
  | plain hplain => simp [Table.Operation.plain?] at hplain
  | shown hshown => simp [Server.Operation.shown?] at hshown
  | unserved _ hover => simp [hgoing] at hover
  | asked _ hserve' hpasses hrelayed =>
    obtain ⟨rfl, rfl⟩ := hserve.unique hserve'
    exact ⟨_, _, _, hperform, hpasses, hrelayed⟩

/-- An operation that asks over a stream that was closed. -/
theorem unserved (hn : n.Sound) (hserver : n.servers[k]? = some server) {f : Fatal} (hover : server.channel.failure? = some f)
    {operation : Server.Operation} (hasks : operation.request?.isSome = true) :
    ∃ m : Route, m.failure? = some f ∧ n.perform (.server k operation) =
      (.error (.channel .closed), ⟨n.client, n.servers.set k { server with channel := m }⟩) := by
  obtain ⟨r, after, u, hperform, -, hperformed⟩ := hn.performed hserver operation
  cases hperformed with
  | plain hplain => simp [Server.request?_eq_none_of_plain hplain] at hasks
  | shown hshown => simp [Server.request?_eq_none_of_shown hshown] at hasks
  | indexOf | pointerOf => simp [Server.Operation.request?] at hasks
  | looked hgoing | asked hgoing => simp [hgoing] at hover
  | @unserved _ _ g m _ hover' hfailure =>
    obtain rfl := Option.some.inj (hover.symm.trans hover')
    exact ⟨m.attach none, (Route.failure?_attach m none).trans hfailure, hperform⟩

theorem perform (hn : n.Sound) (operation : Operation) : (n.perform operation).2.Sound := by
  cases operation with
  | client operation =>
    obtain ⟨hfits, hgrown⟩ := Site.perform_grows operation n.client hn.fits
    exact ⟨hfits, hn.resting, fun server hserver => (hn.initial server hserver).trans hgrown⟩
  | join attachment =>
    refine ⟨hn.fits, ?_, ?_⟩
    · intro server hserver
      rcases List.mem_append.1 hserver with hserver | hserver
      · exact hn.resting server hserver
      · rw [List.mem_singleton.1 hserver]
        exact attachment.resting
    · intro server hserver
      rcases List.mem_append.1 hserver with hserver | hserver
      · exact hn.initial server hserver
      · rw [List.mem_singleton.1 hserver]
        exact List.nil_prefix
  | server k operation =>
    cases hserver : n.servers[k]? with
    | none =>
      rw [perform_absent hserver]
      exact hn
    | some server =>
      obtain ⟨r, after, t, hperform, hrest, hperformed⟩ := hn.performed hserver operation
      obtain ⟨hgrows, hinitial⟩ := hperformed.initial hn.fits (hn.initial server (List.mem_of_getElem? hserver))
      obtain ⟨hfits, hgrown⟩ := hgrows hn.fits
      rw [hperform]
      refine ⟨hfits, ?_, ?_⟩
      · intro other hother
        rcases List.mem_or_eq_of_mem_set hother with hother | rfl
        · exact hn.resting other hother
        · exact hrest.attach none
      · intro other hother
        rcases List.mem_or_eq_of_mem_set hother with hother | rfl
        · exact (hn.initial other hother).trans hgrown
        · exact hinitial

end Sound

theorem Reached.sound {n : Network} (h : n.Reached) : n.Sound := by
  induction h with
  | start heap => exact ⟨SlotStore.empty_fits, by simp, by simp⟩
  | step operation _ ih => exact ih.perform operation

theorem ReachedThrough.reached {n : Network} {k : Nat} (h : n.ReachedThrough k) : n.Reached := by
  induction h with
  | start heap => exact .start heap
  | own operation _ ih => exact ih.step _
  | other operation _ _ ih => exact ih.step operation

theorem Sound.agrees {n : Network} (hn : n.Sound) : n.Agrees where
  initial := hn.initial
  consistent := by
    intro k operation f hf
    cases hserver : n.servers[k]? with
    | none => simp [perform_absent hserver] at hf
    | some server =>
      obtain ⟨r, after, t, hperform, -, hperformed⟩ := hn.performed hserver operation
      rw [hperform] at hf
      obtain rfl : r = .error f := hf
      exact hperformed.not_contradiction hn.fits
  near := by
    intro k server location constant i slot t hserver hgoing hserve hle
    have hfits := hn.fits.of_prefix (hn.initial server (List.mem_of_getElem? hserver))
    obtain ⟨p, m, slots, r, hperform, hpasses, htook⟩ := hn.took hserver hgoing hserve constant
    obtain ⟨rfl, -⟩ := hpasses.eq_of_ok
    rw [hperform]
    cases htook with
    | known _ hslot => exact ⟨⟨m.attach none, server.slots, _⟩, hslot, rfl⟩
    | learnt happend =>
      have hgrown := hfits.of_append? happend
      obtain ⟨-, rfl, rfl⟩ := hfits.append?_eq_some_iff.1 happend
      exact ⟨⟨m.attach none, _, _⟩, hgrown.get?_ofNat_succ (by simp), rfl⟩
    | ahead hahead => exact absurd hle (Nat.not_le_of_lt hahead)
  ahead := by
    intro k server location constant i slot t hserver hgoing hserve hnot
    have hfits := hn.fits.of_prefix (hn.initial server (List.mem_of_getElem? hserver))
    obtain ⟨p, m, slots, r, hperform, hpasses, htook⟩ := hn.took hserver hgoing hserve constant
    obtain ⟨rfl, -⟩ := hpasses.eq_of_ok
    rw [hperform]
    cases htook with
    | known hlt => exact absurd (Nat.le_of_lt hlt) hnot
    | learnt happend =>
      obtain ⟨-, rfl, -⟩ := hfits.append?_eq_some_iff.1 happend
      exact absurd (Nat.le_refl _) hnot
    | ahead => exact ⟨_, rfl⟩
  closed := fun _ _ _ _ hserver hover hasks => hn.unserved hserver hover hasks

/-- The slots of a server, which are none before it joins. -/
def slotsOf (n : Network) (k : Nat) : SlotStore := ((n.servers[k]?).map Server.slots).getD .empty

theorem slotsOf_of_getElem? {n : Network} {k : Nat} {server : Server Route} (h : n.servers[k]? = some server) :
    n.slotsOf k = server.slots := by
  simp only [slotsOf]
  rw [h]
  rfl

/-- After an operation of its own, a server with all of the client's slots still has them all. -/
theorem Sound.slotsOf_own {n : Network} {k : Nat} (hn : n.Sound) (h : n.slotsOf k = n.client.table.slots)
    (operation : Server.Operation) :
    (n.perform (.server k operation)).2.slotsOf k = (n.perform (.server k operation)).2.client.table.slots := by
  cases hserver : n.servers[k]? with
  | none =>
    rw [perform_absent hserver]
    exact h
  | some server =>
    obtain ⟨r, after, t, hperform, -, hperformed⟩ := hn.performed hserver operation
    rw [slotsOf_of_getElem? hserver] at h
    rw [hperform, slotsOf_of_getElem? (List.getElem?_set_self (List.getElem?_eq_some_iff.1 hserver).1)]
    have hslots := hperformed.slots_eq hn.fits h
    exact hslots

/-- Other operations leave the slots of a server as they are. -/
theorem Sound.slotsOf_other {n : Network} {k : Nat} (hn : n.Sound) {operation : Operation}
    (hother : ∀ own, operation ≠ .server k own) : (n.perform operation).2.slotsOf k = n.slotsOf k := by
  cases operation with
  | client operation => rfl
  | server j operation =>
    have hj : j ≠ k := fun heq => hother operation (by rw [heq])
    cases hserver : n.servers[j]? with
    | none => rw [perform_absent hserver]
    | some server =>
      obtain ⟨r, after, t, hperform, -, -⟩ := hn.performed hserver operation
      simp only [slotsOf]
      rw [hperform, List.getElem?_set_ne hj]
  | join attachment =>
    show (((n.servers ++ [.ofChannel attachment.route])[k]?).map Server.slots).getD .empty = n.slotsOf k
    simp only [slotsOf]
    rcases Nat.lt_or_ge k n.servers.length with hlt | hge
    · rw [List.getElem?_append_left hlt]
    · rw [List.getElem?_append_right hge, List.getElem?_eq_none hge, List.getElem?_singleton]
      split <;> rfl

theorem ReachedThrough.slotsOf_eq {n : Network} {k : Nat} (h : n.ReachedThrough k) :
    n.slotsOf k = n.client.table.slots := by
  induction h with
  | start heap => rfl
  | own operation hn ih => exact hn.reached.sound.slotsOf_own ih operation
  | @other n operation hn hkept ih =>
    by_cases hown : ∃ own, operation = .server k own
    · obtain ⟨own, rfl⟩ := hown
      exact hn.reached.sound.slotsOf_own ih own
    · rw [hkept, hn.reached.sound.slotsOf_other (not_exists.1 hown)]
      exact ih

theorem ReachedThrough.mirrors {n : Network} {k : Nat} (h : n.ReachedThrough k) : n.Mirrors k where
  slots := by
    intro server hserver
    rw [← slotsOf_of_getElem? hserver, h.slotsOf_eq]
  neverAhead := by
    intro operation f hf
    have hn := h.reached.sound
    cases hserver : n.servers[k]? with
    | none => simp [perform_absent hserver] at hf
    | some server =>
      obtain ⟨r, after, t, hperform, -, hperformed⟩ := hn.performed hserver operation
      rw [hperform] at hf
      obtain rfl : r = .error f := hf
      exact hperformed.not_ahead hn.fits (by rw [← slotsOf_of_getElem? hserver, h.slotsOf_eq])
  existing := by
    intro server location i hserver hanswer
    have hn := h.reached.sound
    obtain ⟨r, after, t, hperform, -, hperformed⟩ := hn.performed hserver (.table (.existingIndexAt location))
    rw [hperform] at hanswer
    have hsize : server.endIndex = n.client.table.slots.size := by
      rw [Server.endIndex, ← slotsOf_of_getElem? hserver, h.slotsOf_eq]
    cases hperformed with
    | plain hplain => simp [Table.Operation.plain?] at hplain
    | shown hshown => simp [Server.Operation.shown?] at hshown
    | unserved => simp at hanswer
    | asked _ hserve hpasses hrelayed =>
      cases hrelayed with
      | failed | rejected => simp [Except.map] at hanswer
      | @found j =>
        obtain rfl := Table.Answer.index.inj (Except.ok.inj hanswer)
        rw [hpasses.of_ok] at hserve
        cases Site.served_of_ends hn.fits hserve with
        | found hfound =>
          rw [hsize]
          rcases hfound with rfl | rfl | ⟨a, hfind⟩
          · right
            show Index.null.toNat < n.client.table.slots.size.toNat
            rw [hn.fits.toNat_size]
            exact Nat.succ_pos _
          · exact Or.inl rfl
          · exact Or.inr (Site.find_lt hn.fits hfind)

/-- Servers and their client agree, in whatever order their steps come; and a server that alone makes the client grow keeps up with it. -/
theorem agrees_of_reached {n : Network} (h : n.Reached) : n.Agrees ∧ ∀ k, n.ReachedThrough k → n.Mirrors k :=
  ⟨h.sound.agrees, fun _ hthrough => hthrough.mirrors⟩

/-- A server over a loopback and one over a stream. The second meets two objects, with a collection in between, and the first asks about one of them. -/
theorem agrees_of_two_servers :
    ∃ n : Network, n.client.table.slots.handles = [⟨2⟩, ⟨3⟩] ∧ n.ReachedThrough 1 ∧ n.Agrees ∧ n.Mirrors 1 := by
  have hstart := ReachedThrough.start (k := 1) ⟨0, .default, [], [], 0x1000, 1, .empty, 0⟩
  have hdefined := hstart.other (.client (.heap (.define ⟨"p/A", [], false⟩))) rfl
  have hfirst := hdefined.other (.client (.heap (.allocate 0))) rfl
  have hsecond := hfirst.other (.client (.heap (.allocate 0))) rfl
  have hboth := (hsecond.other (.join .loopback) rfl).other (.join .stream) rfl
  have hmet := hboth.own (.table (.indexAt (.handle ⟨1⟩) true))
  have hmoved := hmet.other (.client (.heap .collect)) rfl
  have hgrown := hmoved.own (.table (.indexAt (.handle ⟨0⟩) false))
  have hasked := hgrown.other (.server 0 (.table (.indexAt (.handle ⟨0⟩) false))) (by decide +kernel)
  exact ⟨_, by decide +kernel, hasked, (agrees_of_reached hasked.reached).1, (agrees_of_reached hasked.reached).2 1 hasked⟩

end Network

end KnownObjects
