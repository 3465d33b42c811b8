import KnownObjects.Channel.Link
import KnownObjects.Proofs.Split.Reconciliation
import KnownObjects.Proofs.Table.Tags

/-!
# Tags of a server

A server tags the indices that its client reports, and asks for them as it would without a flag. So two servers that differ in tags at most put the same questions, and over channels that answer alike they stay alike. The channels need not be the same: `Server.Alike` has a relation of theirs as a parameter. Where a client sits at the far end, it may have other tags itself.
-/

namespace KnownObjects.Server

variable {χ α β : Type}

def Operation.tagged? : Operation → Except Fatal Table.Answer → Option Index
  | .table operation, r => operation.tagged? r
  | _, _ => none

def Operation.bare? : Operation → Option Operation
  | .table operation => operation.bare?.map .table
  | operation => some operation

instance [Channel χ] : Desk (Server χ) where
  Use := Operation
  Outside := χ
  perform := perform
  turn change s := { s with channel := change s.channel }
  isTagged := isTagged
  tagged? := Operation.tagged?
  bare s := { s with constantElements := .empty }
  bare? := Operation.bare?

/-! ### What sets tags -/

def KeepsTags (s t : Server χ) : Prop := t.constantElements = s.constantElements

instance : Std.Refl (KeepsTags (χ := χ)) := ⟨fun _ => rfl⟩

instance : Trans (KeepsTags (χ := χ)) KeepsTags KeepsTags where
  trans hst htu := Eq.trans htu hst

theorem slot_keepsTags (i : Index) : (slot i : Run χ Slot).Keeps KeepsTags :=
  Action.Keeps.get.bind fun _ => .orRaise _ _

theorem reconcile_keepsTags (i : Index) (reported : Slot) : (reconcile i reported : Run χ Unit).Keeps KeepsTags := by
  simp only [reconcile]
  split
  · exact .pure ()
  · refine Action.Keeps.get.bind fun s => ?_
    split
    · exact .raise _
    · split
      · cases reported with
        | null => exact .raise _
        | ref h =>
          refine (Action.Keeps.orRaise _ _).bind fun added => Action.Keeps.bind ?_ fun _ => .note _ _
          exact fun _ => rfl
      · refine (slot_keepsTags i).bind fun known => ?_
        split
        · exact .pure ()
        · exact .raise _

variable [Channel χ]

theorem ask_keepsTags (request : Request) : (ask request : Run χ Reply).Keeps KeepsTags := by
  refine Action.Keeps.bind (fun _ => rfl) fun answer => (Action.Keeps.orRaise _ _).bind fun response => ?_
  cases response with
  | reply reply => exact .pure reply
  | refusal text => exact .raise _

theorem lookup_keepsTags (location : Location) : (lookup location : Run χ Index).Keeps KeepsTags := by
  refine (ask_keepsTags _).bind fun reply => ?_
  cases reply with
  | index i reported => exact (reconcile_keepsTags i reported).bind fun _ => .pure i
  | existingIndex | pointer => exact .raise _

theorem existingIndexAt_keepsTags (location : Location) : (existingIndexAt location : Run χ Index).Keeps KeepsTags := by
  refine (ask_keepsTags _).bind fun reply => ?_
  cases reply with
  | existingIndex i => exact .pure i
  | index | pointer => exact .raise _

theorem tagged_of_keeps {s : Server χ} {a : Run χ α} (h : a.Keeps KeepsTags) :
    Desk.Tagged s (a.run s).state none := by
  intro i
  show (a.run s).state.constantElements.contains i = true ↔ s.constantElements.contains i = true ∨ _
  rw [h s]
  simp

theorem tagged_indexAt (location : Location) (constant : Bool) (s : Server χ) :
    Desk.Tagged s ((indexAt location constant).run s).state
      (if constant then ((indexAt location constant).run s).result.toOption else none) := by
  obtain ⟨hresult, hstate⟩ := indexAt_ends ((lookup location).ends s) constant
  intro i
  rw [hresult, hstate]
  refine IndexSet.contains_tagAfter.trans ?_
  rw [lookup_keepsTags location s]
  show s.isTagged i = true ∨ _ ↔ s.isTagged i = true ∨ _
  cases constant <;> cases ((lookup location).run s).result <;> simp [Except.toOption]

theorem tagged_perform (operation : Operation) (s : Server χ) :
    Desk.Tagged s ((perform operation).run s).state (operation.tagged? ((perform operation).run s).result) := by
  cases operation with
  | table operation =>
    cases operation with
    | endIndex | isNull | isTagged => exact tagged_of_keeps (a := (pure () : Run χ Unit)) fun _ => rfl
    | slot j => exact tagged_of_keeps ((slot_keepsTags j).map Table.Answer.slot)
    | tag j =>
      intro i
      refine IndexSet.contains_tag.trans (or_congr_right ?_)
      rw [show (Operation.table (.tag j)).tagged? _ = some j from rfl, Option.some_inj, eq_comm (a := i)]
    | indexAt location constant =>
      obtain ⟨hresult, hstate⟩ := ((indexAt location constant).ends s).map Table.Answer.index
      have htagged : ∀ r : Except Fatal Index, (Operation.table (.indexAt location constant)).tagged? (r.map .index) =
          if constant then r.toOption else none := by
        intro r
        cases constant <;> cases r <;> rfl
      rw [perform, onTable, hresult, hstate, htagged]
      exact tagged_indexAt location constant s
    | existingIndexAt location => exact tagged_of_keeps ((existingIndexAt_keepsTags location).map Table.Answer.index)
  | indexOf object =>
    refine tagged_of_keeps (a := Table.Answer.index <$> indexOf object) (Action.Keeps.map ?_ _)
    exact fun s => congrArg constantElements (indexOf_ends object s).2
  | pointerOf j =>
    refine tagged_of_keeps (a := Table.Answer.pointer <$> pointerOf j) (Action.Keeps.map ?_ _)
    exact fun s => congrArg constantElements (pointerOf_ends j s).2
  | dump | debug => exact tagged_of_keeps (a := (pure () : Run χ Unit)) fun _ => rfl

/-! ### What tags do not touch -/

def Alike (C : χ → χ → Prop) (s t : Server χ) : Prop := s.slots = t.slots ∧ C s.channel t.channel

/-- Related channels answer alike and stay related. -/
def Answers (C : χ → χ → Prop) : Prop :=
  ∀ request, Action.Coupled C Eq Eq (Channel.call request : Action Fatal χ _) (Channel.call request)

abbrev Blind (C : χ → χ → Prop) (a b : Run χ α) : Prop := Action.Coupled (Alike C) Eq Eq a b

namespace Blind

variable {C : χ → χ → Prop}

omit [Channel χ] in
theorem get_bind {f g : Server χ → Run χ α} (h : ∀ s t, s.slots = t.slots → Blind C (f s) (g t)) :
    Blind C (get >>= f) (get >>= g) :=
  Action.Coupled.get.bind fun s t hst => h s t hst.1

omit [Channel χ] in
theorem slot (i : Index) : Blind C (Server.slot i) (Server.slot i) := by
  refine get_bind fun s t hslots => ?_
  rw [hslots]
  exact .orRaise_self id _

omit [Channel χ] in
theorem reconcile (i : Index) (reported : Slot) : Blind C (Server.reconcile i reported) (Server.reconcile i reported) := by
  simp only [Server.reconcile]
  split
  · exact .pure rfl
  · refine get_bind fun s t hslots => ?_
    rw [hslots]
    split
    · exact .raise _
    · split
      · cases reported with
        | null => exact .raise _
        | ref h =>
          refine (Action.Coupled.orRaise_self id _).bind_eq fun added => ?_
          refine Action.Coupled.bind_eq (Action.Coupled.modify ?_) fun _ => .note _ _ _
          exact fun _ _ hst => ⟨rfl, hst.2⟩
      · refine (slot i).bind_eq fun known => ?_
        split
        · exact .pure rfl
        · exact .raise _

omit [Channel χ] in
theorem tag (i : Index) : Blind C (Server.tag i) (pure ()) := fun _ _ hst => ⟨.ok rfl, hst⟩

omit [Channel χ] in
theorem indexOf (object : Address) : Blind C (Server.indexOf object) (Server.indexOf object) := by
  simp only [Server.indexOf]
  split
  · exact .pure rfl
  · exact .raise _

omit [Channel χ] in
theorem pointerOf (i : Index) : Blind C (Server.pointerOf i) (Server.pointerOf i) := by
  simp only [Server.pointerOf]
  split
  · exact .pure rfl
  · exact .raise _

theorem ask (hC : Answers C) (request : Request) : Blind C (Server.ask request) (Server.ask request) := by
  have hcall : Blind C (Action.focus Server.channel (fun channel s => { s with channel }) (Channel.call request))
      (Action.focus Server.channel (fun channel s => { s with channel }) (Channel.call request)) :=
    (hC request).focus (fun s t hst => hst.2) fun s t x y hst hxy => ⟨hst.1, hxy⟩
  refine hcall.bind_eq fun answer => (Action.Coupled.orRaise_self _ _).bind_eq fun response => ?_
  cases response with
  | reply reply => exact .pure rfl
  | refusal text => exact .raise _

theorem indexAt (hC : Answers C) (location : Location) (constant : Bool) :
    Blind C (Server.indexAt location constant) (Server.indexAt location false) := by
  have hlookup : Blind C (lookup location) (lookup location) := by
    refine (ask hC _).bind_eq fun reply => ?_
    cases reply with
    | index i reported => exact (reconcile i reported).bind_eq fun _ => .pure rfl
    | existingIndex | pointer => exact .raise _
  refine hlookup.bind_eq fun i => ?_
  cases constant with
  | false => exact .pure rfl
  | true => exact (tag i).bind_eq fun _ => .pure rfl

theorem existingIndexAt (hC : Answers C) (location : Location) :
    Blind C (Server.existingIndexAt location) (Server.existingIndexAt location) := by
  refine (ask hC _).bind_eq fun reply => ?_
  cases reply with
  | existingIndex i => exact .pure rfl
  | index | pointer => exact .raise _

omit [Channel χ] in
theorem map {a b : Run χ α} (h : Blind C a b) (f : α → β) : Blind C (f <$> a) (f <$> b) :=
  Action.Coupled.map h fun _ _ heq => congrArg f heq

theorem shown {operation : Operation} (h : ∀ slots, ∃ answer, operation.shown? slots = some answer) :
    Blind C (Server.perform operation) (Server.perform operation) := by
  intro s t hst
  obtain ⟨answer, hanswer⟩ := h s.slots
  obtain ⟨hresult, hstate⟩ := perform_ends_of_shown hanswer
  rw [hst.1] at hanswer
  obtain ⟨hresult', hstate'⟩ := perform_ends_of_shown hanswer
  rw [hresult, hstate, hresult', hstate']
  exact ⟨.refl _, hst⟩

theorem perform (hC : Answers C) {operation plain : Operation} (hbare : operation.bare? = some plain) :
    Blind C (Server.perform operation) (Server.perform plain) := by
  cases operation with
  | table operation =>
    obtain ⟨plain, hplain, rfl⟩ := Option.map_eq_some_iff.1 hbare
    cases operation with
    | tag | isTagged => cases hplain
    | endIndex =>
      cases hplain
      refine get_bind fun s t hslots => ?_
      rw [endIndex, endIndex, hslots]
      exact .pure rfl
    | isNull i =>
      cases hplain
      exact .pure rfl
    | slot i =>
      cases hplain
      exact (slot i).map Table.Answer.slot
    | indexAt location constant =>
      cases hplain
      exact (indexAt hC location constant).map Table.Answer.index
    | existingIndexAt location =>
      cases hplain
      exact (existingIndexAt hC location).map Table.Answer.index
  | indexOf object =>
    cases hbare
    exact (indexOf object).map Table.Answer.index
  | pointerOf i =>
    cases hbare
    exact (pointerOf i).map Table.Answer.pointer
  | dump | debug =>
    cases hbare
    exact shown fun _ => ⟨_, rfl⟩

end Blind

theorem answers_eq : Answers (χ := χ) Eq := by
  rintro request c _ rfl
  exact ⟨.refl _, rfl⟩

theorem alike_iff {s t : Server χ} : Desk.Alike s t ↔ Alike Eq s t := by
  obtain ⟨channel, slots, tags⟩ := s
  obtain ⟨channel', slots', tags'⟩ := t
  show Server.mk channel slots .empty = Server.mk channel' slots' .empty ↔ slots = slots' ∧ channel = channel'
  simp [and_comm]

instance : Desk.Lawful (Server χ) where
  isTagged_turn change s i := rfl
  tagged_perform := tagged_perform
  alike_turn change s t hst := by
    obtain ⟨hslots, hchannel⟩ := alike_iff.1 hst
    exact alike_iff.2 ⟨hslots, congrArg change hchannel⟩
  alike_perform use hbare s := by
    cases use with
    | table operation =>
      cases operation with
      | tag | isTagged => rfl
      | endIndex | isNull | slot | indexAt | existingIndexAt => cases hbare
    | indexOf | pointerOf | dump | debug => cases hbare
  coupled_perform use plain hbare s t hst := by
    obtain ⟨hresult, hstate⟩ := Blind.perform answers_eq hbare s t (alike_iff.1 hst)
    exact ⟨hresult, alike_iff.2 hstate⟩

end KnownObjects.Server

namespace KnownObjects

/-! ### The channels of a session -/

theorem serveStream_blind (source : Wire.Source) (sink : Wire.Sink) (served : Nat) :
    Site.Blind (serveStream source sink served) (serveStream source sink served) := by
  fun_induction serveStream source sink served with
  | case1 => exact .pure rfl
  | case2 => exact (Action.Coupled.note _ _ _).bind_eq fun _ => .pure rfl
  | case3 source sink served request rest hread ih =>
    refine (Site.Blind.serve request).bind_eq fun response => ?_
    split
    · exact .pure rfl
    · exact ih _

def Loopback.Alike (c d : Loopback) : Prop := Option.Rel Site.AlikeBare c.client d.client

theorem Loopback.call_alike (request : Request) : Action.Coupled Loopback.Alike Eq Eq
    (Channel.call request : Action Fatal Loopback _) (Channel.call request) := by
  refine Action.Coupled.focus (Action.Coupled.whenPresent ?_ rfl) (fun _ _ h => h) fun _ _ _ _ _ h => h
  exact (Site.Blind.serve request).bind_eq fun _ => .pure rfl

namespace ClientPeer

def Alike (p q : ClientPeer) : Prop := p.failure = q.failure ∧ Option.Rel Site.AlikeBare p.client q.client

theorem serve_alike (bytes : List UInt8) : Action.Coupled Alike Eq Eq (serve bytes) (serve bytes) := by
  exact Action.Coupled.focus (Action.Coupled.whenPresent (serveStream_blind _ _ _) rfl) (fun _ _ h => h.2)
    fun _ _ _ _ hpq h => ⟨hpq.1, h⟩

theorem close_alike (f : Fatal) : Action.Coupled Alike Eq Eq (close f) (close f) := .modify fun _ _ hpq => ⟨rfl, hpq.2⟩

theorem react_alike (bytes : List UInt8) : Action.Coupled Alike Eq Eq
    (Peer.react bytes : Action Fatal ClientPeer _) (Peer.react bytes) := by
  refine Action.Coupled.get.bind fun p q hpq => ?_
  rw [hpq.1]
  split
  · exact .pure rfl
  · refine (serve_alike bytes).attempt.bind fun r r' hr => ?_
    cases hr with
    | @ok served _ hsame =>
      subst hsame
      obtain ⟨result, replies⟩ := served
      cases result with
      | ok count => exact .pure rfl
      | error e => exact (close_alike (.channel e)).bind_eq fun _ => .pure rfl
    | @error f _ hsame =>
      subst hsame
      exact (close_alike f).bind_eq fun _ => .pure rfl

end ClientPeer

namespace StreamChannel

def Alike (c d : StreamChannel ClientPeer) : Prop := c.sink = d.sink ∧ c.source = d.source ∧ c.peer.Alike d.peer

theorem exchange_alike (bytes : List UInt8) :
    Action.Coupled Alike Eq Eq (exchange bytes : Action Fatal (StreamChannel ClientPeer) Unit) (exchange bytes) := by
  have hexchange : Action.Coupled Alike Eq Eq
      (.focus StreamChannel.peer (fun peer c => { c with peer }) (Peer.react bytes) : Action Fatal (StreamChannel ClientPeer) _)
      (.focus StreamChannel.peer (fun peer c => { c with peer }) (Peer.react bytes)) :=
    (ClientPeer.react_alike bytes).focus (fun _ _ hcd => hcd.2.2) fun _ _ _ _ hcd h => ⟨hcd.1, hcd.2.1, h⟩
  refine hexchange.bind_eq fun answer => .modify fun c d hcd => ⟨hcd.1, ?_, hcd.2.2⟩
  show ({ c.source with bytes := _ } : Wire.Source) = _
  rw [hcd.2.1]

theorem call_alike (request : Request) : Action.Coupled Alike Eq Eq
    (Channel.call request : Action Fatal (StreamChannel ClientPeer) _) (Channel.call request) := by
  refine Action.Coupled.get.bind fun c d hcd => ?_
  rw [hcd.1]
  refine Action.Coupled.bind_eq (.modify fun c d hcd => ⟨rfl, hcd.2⟩) fun _ => (exchange_alike _).bind_eq fun _ => ?_
  split
  · exact .pure rfl
  · refine Action.Coupled.get.bind fun c d hcd => ?_
    rw [hcd.2.1]
    refine Action.Coupled.bind_eq (.modify fun c d hcd => ⟨hcd.1, rfl, hcd.2.2⟩) fun _ => ?_
    split <;> exact .pure rfl

end StreamChannel

namespace Route

/-- Routes of the same sort with the same contents. The clients at their far ends differ in tags at most. -/
inductive Alike : Route → Route → Prop
  | loopback {c d : Loopback} : c.Alike d → Alike (.loopback c) (.loopback d)
  | stream {c d : StreamChannel ClientPeer} : c.Alike d → Alike (.stream c) (.stream d)

theorem call_alike (request : Request) : Action.Coupled Alike Eq Eq
    (Channel.call request : Action Fatal Route _) (Channel.call request) := by
  intro k l hkl
  cases hkl with
  | loopback h =>
    obtain ⟨hresult, hstate⟩ := Loopback.call_alike request _ _ h
    exact ⟨hresult, .loopback hstate⟩
  | stream h =>
    obtain ⟨hresult, hstate⟩ := StreamChannel.call_alike request _ _ h
    exact ⟨hresult, .stream hstate⟩

variable {k l : Route}

theorem Alike.failure?_eq (h : k.Alike l) : k.failure? = l.failure? := by
  cases h with
  | loopback => rfl
  | stream h => exact h.2.2.1

theorem Alike.renew (h : k.Alike l) : k.renew.Alike l.renew := by
  cases h with
  | loopback h => exact .loopback h
  | stream h => exact .stream ⟨h.1, h.2.1, rfl, h.2.2.2⟩

/-- Routes that are alike without clients are alike with alike clients. -/
theorem alike_attach (h : k.attach none = l.attach none) {client other : Option Site}
    (hclient : Option.Rel Site.AlikeBare client other) : (k.attach client).Alike (l.attach other) := by
  cases k <;> cases l <;> simp only [attach, Route.stream.injEq, reduceCtorEq] at h
  case loopback.loopback => exact .loopback hclient
  case stream.stream c d =>
    simp only [StreamChannel.mk.injEq, ClientPeer.mk.injEq] at h
    exact .stream ⟨h.1, h.2.1, h.2.2.2, hclient⟩

theorem Alike.attach_none (h : k.Alike l) : k.attach none = l.attach none := by
  cases h with
  | loopback => rfl
  | stream h => simp only [attach, h.1, h.2.1, h.2.2.1]

theorem Alike.client? (h : k.Alike l) : Option.Rel Site.AlikeBare k.client? l.client? := by
  cases h with
  | loopback h => exact h
  | stream h => exact h.2.2.2

end Route

namespace Link

theorem callOnStack_alike (request : Request) : Action.Coupled Route.Alike Eq Eq (callOnStack request) (callOnStack request) := by
  refine (Route.call_alike request).bind_eq fun answer => Action.Coupled.get.bind fun k l hkl => ?_
  rw [hkl.failure?_eq]
  split
  · exact Action.Coupled.bind_eq (.modify fun _ _ hkl => hkl.renew) fun _ => .raise _
  · exact .pure rfl

/-- Links of the same sort with the same contents. The clients at their far ends differ in tags at most. -/
inductive Alike : Link → Link → Prop
  | route {k l : Route} : k.Alike l → Alike (.route k) (.route l)
  | scripted (channel : Scripted) : Alike (.scripted channel) (.scripted channel)
  | bytes (channel : StreamChannel Silence) : Alike (.bytes channel) (.bytes channel)

theorem answers_alike : Server.Answers Alike := by
  intro request k l hkl
  cases hkl with
  | route h =>
    obtain ⟨hresult, hstate⟩ := callOnStack_alike request _ _ h
    exact ⟨hresult, .route hstate⟩
  | scripted c => exact ⟨.refl _, .scripted _⟩
  | bytes c => exact ⟨.refl _, .bytes _⟩

theorem attach_attach (l : Link) (client other : Option Site) : (l.attach client).attach other = l.attach other := by
  cases l with
  | route l => exact congrArg route (l.attach_attach client other)
  | scripted | bytes => rfl

/-- Links that are alike without clients are alike with alike clients. -/
theorem alike_attach {k l : Link} (h : k.attach none = l.attach none) {client other : Option Site}
    (hclient : Option.Rel Site.AlikeBare client other) : Alike (k.attach client) (l.attach other) := by
  cases k <;> cases l <;> simp only [attach, Link.route.injEq, reduceCtorEq] at h
  case route.route => exact .route (Route.alike_attach h hclient)
  case scripted.scripted => exact h ▸ .scripted _
  case bytes.bytes => exact h ▸ .bytes _

theorem Alike.attach_none {k l : Link} (h : Alike k l) : k.attach none = l.attach none := by
  cases h with
  | route h => exact congrArg Link.route h.attach_none
  | scripted | bytes => rfl

theorem Alike.client? {k l : Link} (h : Alike k l) : Option.Rel Site.AlikeBare k.client? l.client? := by
  cases h with
  | route h => exact h.client?
  | scripted | bytes => exact .none

end Link

end KnownObjects
