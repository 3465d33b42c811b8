import KnownObjects.Proofs.Split.Reconciliation

/-!
# A server that faces a client

`Server.Performed` lists how an operation of a server can end while a client is at the far end of its channel. It refers to the service at the client for what the client does, and says what the server makes of the answer. From it follows what holds of the two after every operation, however it ends: the server's slots remain the beginning of the client's, and if they were all of them before they are all of them afterwards.
-/

namespace KnownObjects

/-- A server and its client contradict each other. -/
def Fatal.isContradiction : Fatal → Bool
  | handleMismatch _ _ _ => true
  | channel (.unexpectedReply _ _) => true
  | _ => false

def Fatal.isAhead : Fatal → Bool
  | indexAhead _ _ => true
  | _ => false

theorem Fatal.OfSite.not_contradiction {f : Fatal} (h : f.OfSite) : f.isContradiction = false := by
  cases h <;> rfl

theorem Fatal.OfSite.not_ahead {f : Fatal} (h : f.OfSite) : f.isAhead = false := by
  cases h <;> rfl

namespace Route

variable {l m : Route} {q : Except Fatal Response} {f : Fatal} {client t : Site} {request : Request}

/-- What a route passes on when the client gives up: the error of the client's table, or that the stream is closed. -/
theorem Passes.ofSite_or (h : l.Passes q (.error f) m) (hclient : client.table.slots.Fits)
    (hserve : (Site.serve request).Ends client q t) : f.OfSite ∨ f = .channel .closed := by
  refine h.of_error.imp_left fun hq => ?_
  rw [hq] at hserve
  cases Site.served_of_ends hclient hserve with
  | failed hf => exact hf

/-- A client that gives up has added no slot. -/
theorem Passes.slots_eq_of_error (h : l.Passes q (.error f) m) (hclient : client.table.slots.Fits)
    (hserve : (Site.serve request).Ends client q t) : t.table.slots = client.table.slots := by
  obtain ⟨g, rfl⟩ : ∃ g, q = .error g := by
    cases h with
    | straight => exact ⟨_, rfl⟩
    | failed hq => exact ⟨_, hq⟩
  cases Site.served_of_ends hclient hserve with
  | failed _ hsame => exact hsame

end Route

namespace Server

/-- The server with a client at the far end of its route. -/
def facing (server : Server Route) (client : Site) : Server Route :=
  { server with channel := server.channel.attach (some client) }

inductive Performed (server : Server Route) (client : Site) :
    Operation → Except Fatal Table.Answer → Server Route → Site → Prop
  | plain {operation : Table.Operation} {r : Except Fatal Table.Answer} {tags : IndexSet} :
    operation.plain? server.slots server.constantElements = some (r, tags) →
    Performed server client (.table operation) r { server with constantElements := tags } client
  | shown {operation : Operation} {answer : Table.Answer} : operation.shown? server.slots = some answer →
    Performed server client operation (.ok answer) server client
  | indexOf {object : Address} {r : Except Fatal Index} :
    r = (if object.isNull then .ok .null else .error (.forbiddenOnServer "index_of")) →
    Performed server client (.indexOf object) (r.map .index) server client
  | pointerOf {i : Index} {r : Except Fatal Address} :
    r = (if i.isNull then .ok .null else .error (.forbiddenOnServer "pointer_of")) →
    Performed server client (.pointerOf i) (r.map .pointer) server client
  | looked {location : Location} {constant : Bool} {q p : Except Fatal Response} {r : Except Fatal Index} {m : Route}
      {slots : SlotStore} {t : Site} : server.channel.failure? = none →
    (Site.serve (.getIndexAt location)).Ends client q t → server.channel.Passes q p m → Took server.slots p r slots →
    Performed server client (.table (.indexAt location constant)) (r.map .index)
      ⟨m, slots, server.constantElements.tagAfter constant r⟩ t
  | asked {location : Location} {q p : Except Fatal Response} {r : Except Fatal Index} {m : Route} {t : Site} :
    server.channel.failure? = none → (Site.serve (.getExistingIndexAt location)).Ends client q t →
    server.channel.Passes q p m → Relayed p r →
    Performed server client (.table (.existingIndexAt location)) (r.map .index) { server with channel := m } t
  /-- The service at the far end is over. -/
  | unserved {operation : Operation} {request : Request} {f : Fatal} {m : Route} : operation.request? = some request →
    server.channel.failure? = some f → m.failure? = some f → m.attachment = server.channel.attachment →
    Performed server client operation (.error (.channel .closed)) { server with channel := m } client

section

variable {server : Server Route} {client : Site} (hrest : server.channel.Resting) (hclient : client.table.slots.Fits)
  (hinitial : server.slots.handles <+: client.table.slots.handles)

include hrest

/-- A server hears nothing over a stream that is closed. -/
theorem ask_ends_of_over {f : Fatal} (hover : server.channel.failure? = some f) (request : Request) (client : Site) :
    ∃ m : Route, m.Resting ∧ m.failure? = some f ∧ m.attachment = server.channel.attachment ∧
      (ask request).Ends (server.facing client) (.error (.channel .closed))
        { server with channel := m.attach (some client) } := by
  obtain ⟨m, hm, hfailure, hsame, hcall⟩ := hrest.call_ends_of_over hover request (some client)
  exact ⟨m, hm, hfailure, hsame, ask_ends (s := server.facing client) hcall⟩

/-- What a server hears of the ending of a service. -/
theorem ask_ends_of_serve {t : Site} {request : Request} {q : Except Fatal Response}
    (hgoing : server.channel.failure? = none) (h : (Site.serve request).Ends client q t) :
    ∃ p m, m.Resting ∧ server.channel.Passes q p m ∧
      (ask request).Ends (server.facing client) (heard (p.map .ok)) { server with channel := m.attach (some t) } := by
  obtain ⟨a, m, hm, hpasses, hcall⟩ := hrest.call_ends hgoing h
  refine ⟨_, m, hm, hpasses, ?_⟩
  rw [heard_taken]
  exact ask_ends (s := server.facing client) hcall

omit hrest

include hclient

include hinitial in
theorem lookup_took {location : Location} {q p : Except Fatal Response} {m : Route} {t : Site}
    (h : (Site.serve (.getIndexAt location)).Ends client q t) (hpasses : server.channel.Passes q p m)
    (hask : (ask (.getIndexAt location)).Ends (server.facing client) (heard (p.map .ok))
      { server with channel := m.attach (some t) }) :
    ∃ r slots, (lookup location).Ends (server.facing client) r { server with channel := m.attach (some t), slots } ∧
      Took server.slots p r slots := by
  cases p with
  | error f => exact ⟨_, _, lookup_ends_error hask, .failed⟩
  | ok response =>
    rw [hpasses.of_ok] at h
    cases Site.served_of_ends hclient h with
    | refused => exact ⟨_, _, lookup_ends_error hask, .rejected⟩
    | @entered _ a i slot _ hrequest hlooked hslot =>
      obtain ⟨hgrown, hclientInitial⟩ := hlooked.grows hclient
      have hboth := hinitial.trans hclientInitial
      obtain ⟨r, slots, hreconcile, hreconciled⟩ :=
        exists_reconciled (s := { server with channel := m.attach (some t) }) (hgrown.of_prefix hboth) i slot
      exact ⟨_, slots, lookup_ends hask hreconcile, hreconciled.took hgrown hboth hslot⟩

theorem existingIndexAt_relayed {location : Location} {q p : Except Fatal Response} {m : Route} {t : Site}
    (h : (Site.serve (.getExistingIndexAt location)).Ends client q t) (hpasses : server.channel.Passes q p m)
    (hask : (ask (.getExistingIndexAt location)).Ends (server.facing client) (heard (p.map .ok))
      { server with channel := m.attach (some t) }) :
    ∃ r, (existingIndexAt location).Ends (server.facing client) r { server with channel := m.attach (some t) } ∧
      Relayed p r := by
  cases p with
  | error f => exact ⟨_, hask.bind_error, .failed⟩
  | ok response =>
    rw [hpasses.of_ok] at h
    cases Site.served_of_ends hclient h with
    | refused => exact ⟨_, hask.bind_error, .rejected⟩
    | @found _ i => exact ⟨.ok i, hask.bind (Action.pure_ends i _), .found⟩
    | entered hrequest => simp [Request.enters] at hrequest

include hrest hinitial in
/-- Every operation ends in one of the ways listed. -/
theorem exists_performed (operation : Operation) :
    ∃ r after t, (perform operation).Ends (server.facing client) r (after.facing t) ∧ after.channel.Resting ∧
      Performed server client operation r after t := by
  cases operation with
  | table operation =>
    cases operation with
    | endIndex | isNull | slot | isTagged =>
      exact ⟨_, server, client, onTable_ends_of_plain (s := server.facing client) rfl, hrest, .plain rfl⟩
    | tag i =>
      exact ⟨_, { server with constantElements := server.constantElements.tag i }, client,
        onTable_ends_of_plain (s := server.facing client) rfl, hrest, .plain rfl⟩
    | indexAt location constant =>
      cases hservice : server.channel.failure? with
      | some f =>
        obtain ⟨m, hm, hfailure, hsame, hask⟩ := ask_ends_of_over hrest hservice (.getIndexAt location) client
        have hends := indexAt_ends (lookup_ends_error hask) constant
        exact ⟨_, { server with channel := m }, client, hends.map Table.Answer.index, hm, .unserved rfl hservice hfailure hsame⟩
      | none =>
        have hserve := (Site.serve (.getIndexAt location)).ends client
        obtain ⟨p, m, hm, hpasses, hask⟩ := ask_ends_of_serve hrest hservice hserve
        obtain ⟨r, slots, hlookup, htook⟩ := lookup_took hclient hinitial hserve hpasses hask
        have hends := indexAt_ends hlookup constant
        exact ⟨_, ⟨m, slots, _⟩, _, hends.map Table.Answer.index, hm, .looked hservice hserve hpasses htook⟩
    | existingIndexAt location =>
      cases hservice : server.channel.failure? with
      | some f =>
        obtain ⟨m, hm, hfailure, hsame, hask⟩ :=
          ask_ends_of_over hrest hservice (.getExistingIndexAt location) client
        have hends : (existingIndexAt location).Ends _ (.error (.channel .closed)) _ := hask.bind_error
        exact ⟨_, { server with channel := m }, client, hends.map Table.Answer.index, hm, .unserved rfl hservice hfailure hsame⟩
      | none =>
        have hserve := (Site.serve (.getExistingIndexAt location)).ends client
        obtain ⟨p, m, hm, hpasses, hask⟩ := ask_ends_of_serve hrest hservice hserve
        obtain ⟨r, hends, hrelayed⟩ := existingIndexAt_relayed hclient hserve hpasses hask
        exact ⟨_, { server with channel := m }, _, hends.map Table.Answer.index, hm, .asked hservice hserve hpasses hrelayed⟩
  | indexOf object =>
    exact ⟨_, server, client, (indexOf_ends object (server.facing client)).map Table.Answer.index, hrest,
      .indexOf rfl⟩
  | pointerOf i =>
    exact ⟨_, server, client, (pointerOf_ends i (server.facing client)).map Table.Answer.pointer, hrest,
      .pointerOf rfl⟩
  | dump | debug => exact ⟨_, server, client, perform_ends_of_shown (s := server.facing client) rfl, hrest, .shown rfl⟩

end

section

variable {server after : Server Route} {client t : Site} {operation : Operation} {r : Except Fatal Table.Answer}

/-- The slots remain the beginning of the client's, and the client's go on fitting. -/
theorem Performed.initial (hclient : client.table.slots.Fits)
    (hinitial : server.slots.handles <+: client.table.slots.handles) (h : Performed server client operation r after t) :
    Site.Grows client t ∧ after.slots.handles <+: t.table.slots.handles := by
  cases h with
  | plain | shown | indexOf | pointerOf | unserved => exact ⟨Site.grows_of_slots_eq rfl, hinitial⟩
  | looked _ hserve hpasses htook =>
    have hserved := Site.served_of_ends hclient hserve
    obtain ⟨hgrown, hclientInitial⟩ := hserved.grows hclient
    refine ⟨hserved.grows, htook.initial hgrown (hinitial.trans hclientInitial) ?_⟩
    rintro i slot rfl
    rw [hpasses.of_ok] at hserved
    cases hserved with
    | entered _ _ hslot => exact hslot
  | asked _ hserve =>
    have hgrows := (Site.served_of_ends hclient hserve).grows
    exact ⟨hgrows, hinitial.trans (hgrows hclient).2⟩

theorem Performed.attachment_eq (h : Performed server client operation r after t) :
    after.channel.attachment = server.channel.attachment := by
  cases h with
  | plain | shown | indexOf | pointerOf => rfl
  | looked _ _ hpasses | asked _ _ hpasses => exact hpasses.attachment_eq
  | unserved _ _ _ hsame => exact hsame

/-- The errors of an operation: those of the client's table and those that name their own reason. -/
theorem Performed.error_cases {f : Fatal} (hclient : client.table.slots.Fits)
    (h : Performed server client operation (.error f) after t) :
    f.OfSite ∨ f = .channel .closed ∨ (∃ name, f = .forbiddenOnServer name) ∨ (∃ text, f = .clientRejected text) ∨
      ∃ location i slot, f = .indexAhead i server.slots.size ∧ server.slots.size.toNat < i.toNat ∧
        (Site.serve (.getIndexAt location)).Ends client (.ok (.reply (.index i slot))) t := by
  generalize hr : (Except.error f : Except Fatal Table.Answer) = r at h
  cases h with
  | plain hplain =>
    subst hr
    obtain ⟨i, rfl⟩ := Table.Operation.plain?_error hplain
    exact Or.inl (.indexOutOfRange i _)
  | shown => simp at hr
  | unserved => exact Or.inr (Or.inl (Except.error.inj hr))
  | indexOf hq | pointerOf hq =>
    subst hq
    split at hr
    · simp [Except.map] at hr
    · obtain rfl := Except.error.inj hr
      exact Or.inr (Or.inr (Or.inl ⟨_, rfl⟩))
  | @looked location _ _ _ _ _ _ _ _ hserve hpasses htook =>
    cases htook with
    | failed =>
      obtain rfl := Except.error.inj hr
      exact (hpasses.ofSite_or hclient hserve).imp_right Or.inl
    | rejected =>
      obtain rfl := Except.error.inj hr
      exact Or.inr (Or.inr (Or.inr (Or.inl ⟨_, rfl⟩)))
    | ahead hahead =>
      obtain rfl := Except.error.inj hr
      rw [hpasses.of_ok] at hserve
      exact Or.inr (Or.inr (Or.inr (Or.inr ⟨location, _, _, rfl, hahead, hserve⟩)))
    | known | learnt => simp [Except.map] at hr
  | asked _ hserve hpasses hrelayed =>
    cases hrelayed with
    | failed =>
      obtain rfl := Except.error.inj hr
      exact (hpasses.ofSite_or hclient hserve).imp_right Or.inl
    | rejected =>
      obtain rfl := Except.error.inj hr
      exact Or.inr (Or.inr (Or.inr (Or.inl ⟨_, rfl⟩)))
    | found => simp [Except.map] at hr

/-- A server never finds itself contradicted. -/
theorem Performed.not_contradiction {f : Fatal} (hclient : client.table.slots.Fits)
    (h : Performed server client operation (.error f) after t) : f.isContradiction = false := by
  rcases h.error_cases hclient with hf | rfl | ⟨name, rfl⟩ | ⟨text, rfl⟩ | ⟨location, i, slot, rfl, -⟩
  · exact hf.not_contradiction
  · rfl
  · rfl
  · rfl
  · rfl

/-- A server that has all of the client's slots learns every slot that it makes the client add. -/
theorem Performed.slots_eq (hclient : client.table.slots.Fits) (hslots : server.slots = client.table.slots)
    (h : Performed server client operation r after t) : after.slots = t.table.slots := by
  have hinitial := (h.initial hclient (hslots ▸ List.prefix_rfl)).2
  cases h with
  | plain | shown | indexOf | pointerOf | unserved => exact hslots
  | @looked _ _ _ p _ _ slots _ _ hserve hpasses htook =>
    cases p with
    | error f =>
      cases htook
      exact hslots.trans (hpasses.slots_eq_of_error hclient hserve).symm
    | ok response =>
      rw [hpasses.of_ok] at hserve
      cases Site.served_of_ends hclient hserve with
      | refused =>
        cases htook
        exact hslots
      | entered _ hlooked =>
        rcases hlooked.slots_of_ok hclient with ⟨hsame, hlt⟩ | ⟨handle, happend⟩
        · cases htook with
          | known | ahead => exact hslots.trans hsame.symm
          | learnt hlearnt =>
            rw [hslots] at hlearnt
            obtain ⟨-, rfl, -⟩ := hclient.append?_eq_some_iff.1 hlearnt
            exact absurd hlt (Nat.lt_irrefl _)
        · obtain ⟨-, rfl, hgrown⟩ := hclient.append?_eq_some_iff.1 happend
          cases htook with
          | known hlt | ahead hlt =>
            rw [hslots] at hlt
            exact absurd hlt (Nat.lt_irrefl _)
          | learnt hlearnt =>
            rw [hslots] at hlearnt
            obtain ⟨-, -, rfl⟩ := hclient.append?_eq_some_iff.1 hlearnt
            -- Both rows have one slot more than the client had, and one is the beginning of the other.
            rw [hgrown] at hinitial ⊢
            exact congrArg SlotStore.mk (hinitial.eq_of_length (by simp))
  | asked _ hserve =>
    cases Site.served_of_ends hclient hserve with
    | refused | found => exact hslots
    | failed _ hsame => exact hslots.trans hsame.symm
    | entered hrequest => simp [Request.enters] at hrequest

/-- The client is never ahead of a server that has all of its slots. -/
theorem Performed.not_ahead {f : Fatal} (hclient : client.table.slots.Fits) (hslots : server.slots = client.table.slots)
    (h : Performed server client operation (.error f) after t) : f.isAhead = false := by
  rcases h.error_cases hclient with hf | rfl | ⟨name, rfl⟩ | ⟨text, rfl⟩ | ⟨location, i, slot, rfl, hahead, hserve⟩
  · exact hf.not_ahead
  · rfl
  · rfl
  · rfl
  · cases Site.served_of_ends hclient hserve with
    | entered _ hlooked =>
      have hle := hlooked.le_size hclient
      rw [hslots] at hahead
      omega

end

end Server

end KnownObjects
