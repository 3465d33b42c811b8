import KnownObjects.Proofs.Split.Network

/-!
# Calls or frames

A script is run twice, over loopbacks and over streams. The two networks `Concur` when they have the same client and their servers have the same slots and tags, however they are linked. They concur after every step, and the servers hear the same, with one exception: `Operation.raised?` is the fatal error that the client raises while it serves an operation, and where there is one it passes through a loopback. The service at the end of a stream is torn down by it, so that its server finds the stream closed instead. Such a server is `Shut` off. Nothing that it asks later is answered or has any effect, while over a loopback it would be served again. So a script `Heeds` the networks as long as no server asks over a stream that was closed.

The one thing that could set a stream apart beyond this is a message that does not fit a frame, and there is none.
-/

namespace KnownObjects

open Wire

namespace Route

/-- A stream brings what the client answers, or is closed from then on. -/
theorem Passes.of_stream {l m : Route} {q p : Except Fatal Response} (h : l.Passes q p m) (hl : l.attachment = .stream) :
    (∃ response, q = .ok response ∧ p = .ok response) ∨
      ∃ f, q = .error f ∧ p = .error (.channel .closed) ∧ m.failure? = some f := by
  cases h with
  | straight => simp [attachment] at hl
  | answered hq => exact Or.inl ⟨_, hq, rfl⟩
  | failed hq hover => exact Or.inr ⟨_, hq, rfl, hover⟩

end Route

/-! ### One operation -/

namespace Server

/-- The fatal error, if any, that a client raises while it serves an operation. -/
def Operation.raised? (operation : Operation) (client : Site) : Option Fatal := do
  let request ← operation.request?
  match ((Site.serve request).run client).result with
  | .ok _ => none
  | .error f => some f

/-- What a server gets over a stream where it would get `r` over a loopback. -/
def throughStream : Option Fatal → Except Fatal Table.Answer → Except Fatal Table.Answer
  | none, r => r
  | some _, _ => .error (.channel .closed)

section

variable {operation : Operation} {client t : Site} {request : Request}

theorem Operation.raised?_of_no_request (hnone : operation.request? = none) : operation.raised? client = none := by
  simp only [raised?]
  rw [hnone]
  rfl

theorem Operation.raised?_of_ok {response : Response} (hrequest : operation.request? = some request)
    (h : (Site.serve request).Ends client (.ok response) t) : operation.raised? client = none := by
  simp only [raised?]
  rw [hrequest, Option.bind_eq_bind, Option.bind_some, h.1]

theorem Operation.raised?_of_error {f : Fatal} (hrequest : operation.request? = some request)
    (h : (Site.serve request).Ends client (.error f) t) : operation.raised? client = some f := by
  simp only [raised?]
  rw [hrequest, Option.bind_eq_bind, Option.bind_some, h.1]

end

section

variable {slots after after' : SlotStore} {q : Except Fatal Response} {r r' : Except Fatal Index} {f : Fatal}

theorem Relayed.unique (h : Relayed q r) (h' : Relayed q r') : r = r' := by
  cases h <;> cases h' <;> rfl

theorem Relayed.of_error (h : Relayed (.error f) r) : r = .error f := by
  cases h
  rfl

theorem Took.unique (hslots : slots.Fits) (h : Took slots q r after) (h' : Took slots q r' after') :
    r = r' ∧ after = after' := by
  -- An index that is learnt is the size of the row, so it is neither known nor ahead.
  have hnext : ∀ {g : Handle} {i : Index} {grown : SlotStore}, slots.append? g = some (i, grown) →
      i.toNat = slots.size.toNat := by
    intro g i grown happend
    rw [(hslots.append?_eq_some_iff.1 happend).2.1]
  cases h <;> cases h' <;> grind

theorem Took.of_error (h : Took slots (.error f) r after) : r = .error f ∧ after = slots := by
  cases h
  exact ⟨rfl, rfl⟩

end

/-- What an operation does at a given client, over a loopback and over a stream whose service goes on. -/
structure Parallel (operation : Operation) (client : Site) (r r' : Except Fatal Table.Answer) (after after' : Server Route)
    (t t' : Site) : Prop where
  answer : r' = throughStream (operation.raised? client) r
  same : t = t'
  contents : after.contents = after'.contents
  raised : ∀ f, operation.raised? client = some f → r = .error f ∧ after'.channel.failure? = some f

variable {server server' after after' : Server Route} {client t t' : Site} {operation : Operation}
  {r r' : Except Fatal Table.Answer}

theorem parallel_of_none (hnone : operation.raised? client = none) (hanswer : r = r') (hsame : t = t')
    (hafter : after.contents = after'.contents) : Parallel operation client r r' after after' t t' where
  answer := by
    rw [hnone]
    exact hanswer.symm
  same := hsame
  contents := hafter
  raised f hf := by simp [hnone] at hf

theorem parallel_of_some {f : Fatal} (hsome : operation.raised? client = some f) (hover : after'.channel.failure? = some f)
    (hafter : after.contents = after'.contents) :
    Parallel operation client (.error f) (.error (.channel .closed)) after after' t t where
  answer := by
    rw [hsome]
    rfl
  same := rfl
  contents := hafter
  raised g hg := by
    obtain rfl := Option.some.inj (hsome.symm.trans hg)
    exact ⟨rfl, hover⟩

theorem Performed.parallel (hloopback : server.channel.attachment = .loopback) (hstream : server'.channel.attachment = .stream)
    (hslots : server.slots.Fits) (hcontents : server.contents = server'.contents)
    (hheeds : operation.request? = none ∨ server'.channel.failure? = none)
    (h : Performed server client operation r after t) (h' : Performed server' client operation r' after' t') :
    Parallel operation client r r' after after' t t' := by
  obtain ⟨hsame, htags⟩ := Prod.mk.inj hcontents
  cases h with
  | @plain operation _ _ hplain =>
    have hnone : (Operation.table operation).raised? client = none :=
      Operation.raised?_of_no_request (request?_eq_none_of_plain hplain)
    cases h' with
    | plain hplain' =>
      rw [hsame, htags] at hplain
      obtain ⟨hanswer, htags'⟩ := Prod.mk.inj (Option.some.inj (hplain.symm.trans hplain'))
      exact parallel_of_none hnone hanswer rfl (Prod.ext hsame htags')
    | shown hshown => simp [Operation.shown?] at hshown
    | looked | asked => simp [Table.Operation.plain?] at hplain
    | unserved hrequest => simp [request?_eq_none_of_plain hplain] at hrequest
  | @shown operation _ hshown =>
    have hnone : operation.raised? client = none := Operation.raised?_of_no_request (request?_eq_none_of_shown hshown)
    cases h' with
    | shown hshown' =>
      rw [hsame] at hshown
      obtain rfl := Option.some.inj (hshown.symm.trans hshown')
      exact parallel_of_none hnone rfl rfl hcontents
    | plain | indexOf | pointerOf | looked | asked => simp [Operation.shown?] at hshown
    | unserved hrequest => simp [request?_eq_none_of_shown hshown] at hrequest
  | indexOf hr =>
    cases h' with
    | indexOf hr' => exact parallel_of_none rfl (by rw [hr, hr']) rfl hcontents
    | shown hshown => simp [Operation.shown?] at hshown
    | unserved hrequest => simp [Operation.request?] at hrequest
  | pointerOf hr =>
    cases h' with
    | pointerOf hr' => exact parallel_of_none rfl (by rw [hr, hr']) rfl hcontents
    | shown hshown => simp [Operation.shown?] at hshown
    | unserved hrequest => simp [Operation.request?] at hrequest
  | unserved _ hover => cases hroute : server.channel <;> simp_all [Route.attachment, Route.failure?]
  | looked _ hserve hpasses htook =>
    obtain ⟨rfl, -⟩ := hpasses.eq_of_loopback hloopback
    cases h' with
    | plain hplain => simp [Table.Operation.plain?] at hplain
    | shown hshown => simp [Operation.shown?] at hshown
    | unserved hrequest hover => simp [hrequest, hover] at hheeds
    | looked _ hserve' hpasses' htook' =>
      obtain ⟨rfl, rfl⟩ := hserve.unique hserve'
      rw [← hsame] at htook'
      rcases hpasses'.of_stream hstream with ⟨response, rfl, rfl⟩ | ⟨f, rfl, rfl, hover⟩
      · obtain ⟨rfl, rfl⟩ := htook.unique hslots htook'
        refine parallel_of_none (Operation.raised?_of_ok rfl hserve) rfl rfl (Prod.ext rfl ?_)
        exact congrArg (IndexSet.tagAfter · _ _) htags
      · obtain ⟨rfl, rfl⟩ := htook.of_error
        obtain ⟨rfl, rfl⟩ := htook'.of_error
        exact parallel_of_some (Operation.raised?_of_error rfl hserve) hover (Prod.ext rfl htags)
  | asked _ hserve hpasses hrelayed =>
    obtain ⟨rfl, -⟩ := hpasses.eq_of_loopback hloopback
    cases h' with
    | plain hplain => simp [Table.Operation.plain?] at hplain
    | shown hshown => simp [Operation.shown?] at hshown
    | unserved hrequest hover => simp [hrequest, hover] at hheeds
    | asked _ hserve' hpasses' hrelayed' =>
      obtain ⟨rfl, rfl⟩ := hserve.unique hserve'
      rcases hpasses'.of_stream hstream with ⟨response, rfl, rfl⟩ | ⟨f, rfl, rfl, hover⟩
      · obtain rfl := hrelayed.unique hrelayed'
        exact parallel_of_none (Operation.raised?_of_ok rfl hserve) rfl rfl hcontents
      · obtain rfl := hrelayed.of_error
        obtain rfl := hrelayed'.of_error
        exact parallel_of_some (Operation.raised?_of_error rfl hserve) hover hcontents

end Server

/-! ### Networks -/

namespace Network

/-- Links a server that joins in a given way. -/
def Operation.over (attachment : Attachment) : Operation → Operation
  | .join _ => .join attachment
  | other => other

/-- The two networks differ only in their links. -/
structure Concur (n m : Network) : Prop where
  client : n.client = m.client
  servers : n.servers.map Server.contents = m.servers.map Server.contents

/-- The answers to a row of steps, where each failure is caught, and the network that they leave. -/
def performAll (n : Network) : List Operation → List (Except Fatal Table.Answer) × Network
  | [] => ([], n)
  | operation :: rest =>
    let others := performAll (n.perform operation).2 rest
    ((n.perform operation).1 :: others.1, others.2)

/-- The fatal error, if any, that the client raises while it serves an operation. -/
def raised? (n : Network) : Operation → Option Fatal
  | .server k operation => n.servers[k]?.bind fun _ => operation.raised? n.client
  | _ => none

def raisedAll (n : Network) : List Operation → List (Option Fatal)
  | [] => []
  | operation :: rest => n.raised? operation :: raisedAll (n.perform operation).2 rest

/-- The operation does not ask over a stream whose service is over. -/
def Heeds (n : Network) : Operation → Prop
  | .server k operation => operation.request? = none ∨ ∀ server ∈ n.servers[k]?, server.channel.failure? = none
  | _ => True

instance (n : Network) : DecidablePred n.Heeds
  | .server _ _ => inferInstanceAs (Decidable (_ ∨ _))
  | .client _ | .join _ => isTrue trivial

def HeedsAll (n : Network) : List Operation → Prop
  | [] => True
  | operation :: rest => n.Heeds operation ∧ HeedsAll (n.perform operation).2 rest

instance decidableHeedsAll : (n : Network) → (script : List Operation) → Decidable (n.HeedsAll script)
  | _, [] => isTrue trivial
  | n, operation :: rest =>
    have := decidableHeedsAll (n.perform operation).2 rest
    inferInstanceAs (Decidable (_ ∧ _))

theorem Sound.performAll {n : Network} (hn : n.Sound) (script : List Operation) : (n.performAll script).2.Sound := by
  induction script generalizing n with
  | nil => exact hn
  | cons operation rest ih => exact ih (hn.perform operation)

/-! ### A service that is over -/

/-- The service for a server was ended by a fatal error of the client. -/
def Over (n : Network) (k : Nat) (f : Fatal) : Prop :=
  ∃ server, n.servers[k]? = some server ∧ server.channel.failure? = some f

section

variable {n : Network} {k : Nat} {f : Fatal}

end

/-! ### Two networks -/

/-- The first network works over loopbacks, the second over streams. -/
structure Paired (n m : Network) : Prop where
  concur : Concur n m
  left : n.Sound
  right : m.Sound
  loopbacks : ∀ server ∈ n.servers, server.channel.attachment = .loopback
  streams : ∀ server ∈ m.servers, server.channel.attachment = .stream

/-- What a step does in both networks. -/
structure Advances (n m : Network) (operation : Operation) : Prop where
  answer : (m.perform (operation.over .stream)).1 =
    Server.throughStream (n.raised? (operation.over .loopback)) (n.perform (operation.over .loopback)).1
  raised : ∀ f, n.raised? (operation.over .loopback) = some f → (n.perform (operation.over .loopback)).1 = .error f
  ended : ∀ k own f, operation = .server k own → n.raised? operation = some f → (m.perform operation).2.Over k f
  paired : Paired (n.perform (operation.over .loopback)).2 (m.perform (operation.over .stream)).2

/-- A server that joins over a route of one kind keeps it. -/
theorem Sound.attached_perform {n : Network} {attachment : Attachment} (hn : n.Sound)
    (h : ∀ server ∈ n.servers, server.channel.attachment = attachment) (operation : Operation) :
    ∀ server ∈ (n.perform (operation.over attachment)).2.servers, server.channel.attachment = attachment := by
  cases operation with
  | client operation => exact h
  | join =>
    intro server hserver
    rcases List.mem_append.1 hserver with hserver | hserver
    · exact h server hserver
    · rw [List.mem_singleton.1 hserver]
      exact attachment.attachment_route
  | server k operation =>
    simp only [Operation.over]
    cases hserver : n.servers[k]? with
    | none =>
      rw [perform_absent hserver]
      exact h
    | some server =>
      obtain ⟨r, after, t, hperform, -, hperformed⟩ := hn.performed hserver operation
      rw [hperform]
      intro other hother
      rcases List.mem_or_eq_of_mem_set hother with hother | rfl
      · exact h other hother
      · rw [Route.attachment_attach, hperformed.attachment_eq]
        exact h server (List.mem_of_getElem? hserver)

section

variable {n m : Network}

theorem Paired.server_advances (h : Paired n m) {k : Nat} {operation : Server.Operation}
    (hheeds : m.Heeds (.server k operation)) : Advances n m (.server k operation) := by
  have hleft := h.left.attached_perform h.loopbacks (.server k operation)
  have hright := h.right.attached_perform h.streams (.server k operation)
  have hk := congrArg (·[k]?) h.concur.servers
  simp only [List.getElem?_map] at hk
  cases hserver : n.servers[k]? with
  | none =>
    have hraised : n.raised? (.server k operation) = none := by
      simp only [raised?]
      rw [hserver]
      rfl
    rw [hserver, Option.map_none] at hk
    have habsent := perform_absent hserver operation
    have habsent' := perform_absent (Option.map_eq_none_iff.1 hk.symm) operation
    have hpaired : Paired (n.perform (.server k operation)).2 (m.perform (.server k operation)).2 := by
      rw [habsent, habsent']
      exact h
    refine ⟨?_, fun f hf => ?_, fun j own f hown hf => ?_, hpaired⟩
    · simp only [Operation.over]
      rw [hraised, habsent, habsent']
      rfl
    · simp only [Operation.over] at hf
      simp [hraised] at hf
    · simp [hraised] at hf
  | some server =>
    have hraised : n.raised? (.server k operation) = operation.raised? n.client := by
      simp only [raised?]
      rw [hserver]
      rfl
    rw [hserver, Option.map_some] at hk
    obtain ⟨server', hserver', hcontents⟩ := Option.map_eq_some_iff.1 hk.symm
    have hmem := List.mem_of_getElem? hserver
    obtain ⟨r, after, t, hperform, -, hperformed⟩ := h.left.performed hserver operation
    obtain ⟨r', after', t', hperform', -, hperformed'⟩ := h.right.performed hserver' operation
    rw [← h.concur.client] at hperformed'
    have hparallel := hperformed.parallel (h.loopbacks server hmem) (h.streams server' (List.mem_of_getElem? hserver'))
      (h.left.fits.of_prefix (h.left.initial server hmem)) hcontents.symm (hheeds.imp_right fun hgoing => hgoing server' hserver')
      hperformed'
    have hconcur : Concur (n.perform (.server k operation)).2 (m.perform (.server k operation)).2 := by
      rw [hperform, hperform']
      refine ⟨hparallel.same, ?_⟩
      simp only [List.map_set]
      rw [h.concur.servers]
      exact congrArg (List.set _ k) hparallel.contents
    refine ⟨?_, fun f hf => ?_, ?_, hconcur, h.left.perform _, h.right.perform _, hleft, hright⟩
    · simp only [Operation.over]
      rw [hraised, hperform, hperform']
      exact hparallel.answer
    · simp only [Operation.over] at hf ⊢
      rw [hraised] at hf
      rw [hperform]
      exact (hparallel.raised f hf).1
    · intro j own f hown hf
      obtain ⟨rfl, rfl⟩ := Operation.server.inj hown
      rw [hraised] at hf
      rw [hperform']
      refine ⟨_, List.getElem?_set_self (List.getElem?_eq_some_iff.1 hserver').1, ?_⟩
      exact (Route.failure?_attach _ _).trans (hparallel.raised f hf).2

/-- Whichever step two networks take, they concur again. -/
theorem Paired.advances (h : Paired n m) {operation : Operation} (hheeds : m.Heeds (operation.over .stream)) :
    Advances n m operation := by
  have hleft := h.left.attached_perform h.loopbacks operation
  have hright := h.right.attached_perform h.streams operation
  cases operation with
  | server k operation => exact h.server_advances hheeds
  | client operation =>
    have hclient := congrArg (Site.perform operation).run h.concur.client
    have hconcur : Concur (n.perform (.client operation)).2 (m.perform (.client operation)).2 :=
      ⟨congrArg Outcome.state hclient, h.concur.servers⟩
    exact ⟨(congrArg Outcome.result hclient).symm, fun f hf => by simp [raised?, Operation.over] at hf,
      fun k own f hown => by simp at hown, hconcur, h.left.perform _, h.right.perform _, hleft, hright⟩
  | join attachment =>
    have hconcur : Concur (n.perform (.join .loopback)).2 (m.perform (.join .stream)).2 := by
      refine ⟨h.concur.client, ?_⟩
      simp only [Network.perform]
      rw [List.map_append, List.map_append, h.concur.servers]
      rfl
    exact ⟨rfl, fun f hf => by simp [raised?, Operation.over] at hf, fun k own f hown => by simp at hown, hconcur,
      h.left.perform _, h.right.perform _, hleft, hright⟩

/-- What has been heard over streams, when it was heard over loopbacks. -/
structure Heard (n m : Network) (script : List Operation) : Prop where
  answers : (m.performAll (script.map (.over .stream))).1 = List.zipWith Server.throughStream
    (n.raisedAll (script.map (.over .loopback))) (n.performAll (script.map (.over .loopback))).1
  raised : List.Forall₂ (fun raised r => ∀ f, raised = some f → r = .error f)
    (n.raisedAll (script.map (.over .loopback))) (n.performAll (script.map (.over .loopback))).1
  paired : Paired (n.performAll (script.map (.over .loopback))).2 (m.performAll (script.map (.over .stream))).2

theorem Paired.heard (h : Paired n m) {script : List Operation} (hheeds : m.HeedsAll (script.map (.over .stream))) :
    Heard n m script := by
  induction script generalizing n m with
  | nil => exact ⟨rfl, .nil, h⟩
  | cons operation rest ih =>
    have hstep := h.advances hheeds.1
    have hrest := ih hstep.paired hheeds.2
    exact ⟨List.cons_eq_cons.2 ⟨hstep.answer, hrest.answers⟩, .cons hstep.raised hrest.raised, hrest.paired⟩

end

end Network

end KnownObjects
