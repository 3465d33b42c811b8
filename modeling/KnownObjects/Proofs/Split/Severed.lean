import KnownObjects.Proofs.Split.Facing
import KnownObjects.Proofs.Split.Pipes

/-!
# Severed sides

A server and its client are joined by two pipes that may be cut anywhere. In a script the server is asked for something, each failure is caught, and in between things happen to the heap. Two states are possible. The sides are `Joined` while the service waits for the next request; then they have the same slots. They are `Parted` for good once a message was cut or the client gave up. Then the client has at most one slot more, and the server fails every lookup at the pipe.

A step severs the sides when its request or the response does not fit the pipe. `Performs` lists how an operation can end while they are joined.
-/

namespace KnownObjects

open Wire

namespace SlotStore

/-- The first row is the beginning of the second, which has at most one slot more. -/
structure Near (slots ahead : SlotStore) : Prop where
  initial : slots.handles <+: ahead.handles
  length : ahead.handles.length ≤ slots.handles.length + 1

theorem Near.refl (slots : SlotStore) : slots.Near slots := ⟨List.prefix_rfl, Nat.le_succ _⟩

theorem near_of_eq_or {slots ahead : SlotStore} (h : ahead = slots ∨ ∃ handle, ahead = ⟨slots.handles ++ [handle]⟩) :
    slots.Near ahead := by
  rcases h with rfl | ⟨handle, rfl⟩
  · exact .refl _
  · exact ⟨List.prefix_append _ _, by simp⟩

end SlotStore

/-- A service adds at most one slot. -/
theorem Site.Served.slots_eq_or {s t : Site} {request : Request} {r : Except Fatal Response} (hs : s.table.slots.Fits)
    (h : Served s request r t) :
    t.table.slots = s.table.slots ∨ ∃ handle, t.table.slots = ⟨s.table.slots.handles ++ [handle]⟩ := by
  cases h with
  | refused | found | pointed => exact Or.inl rfl
  | failed _ hslots => exact Or.inl hslots
  | entered _ hlooked =>
    rcases hlooked.slots_of_ok hs with ⟨hslots, -⟩ | ⟨handle, happend⟩
    · exact Or.inl hslots
    · exact Or.inr ⟨handle, (hs.append?_eq_some_iff.1 happend).2.2⟩

/-- A pipe broke before the whole response had come through. -/
def ChannelError.isBreak : ChannelError → Bool
  | transfer .outputFull => true
  | transfer .endOfInput => true
  | closed => true
  | _ => false

namespace Server

/-- Asks how much the server has taken in so far. -/
def Operation.reports : Operation → Bool
  | .table .endIndex => true
  | .table (.isTagged _) => true
  | .dump _ => true
  | .debug => true
  | _ => false

section

variable {slots after : SlotStore} {tags later : IndexSet} {operation : Operation} {r : Except Fatal Table.Answer}

theorem Handled.slots_eq_of_none (h : Handled slots tags operation none r after later) : after = slots := by
  cases h <;> rfl

theorem Handled.of_unheard {f : Fatal} (h : Handled slots tags operation (some (.error f)) r after later) :
    r = .error f ∧ after = slots ∧ later = tags := by
  cases h
  exact ⟨rfl, rfl, rfl⟩

/-- Where the slots are the beginning of others, an operation that asks nobody is answered there as well, and in the same way unless it reports. -/
theorem Handled.completes {slots' after' : SlotStore} {tags' later' : IndexSet} {a : Table.Answer}
    {q : Except Fatal Table.Answer} (hslots : slots.Fits) (hinitial : slots.handles <+: slots'.handles)
    (h : Handled slots tags operation none (.ok a) after later) (h' : Handled slots' tags' operation none q after' later') :
    q = .ok a ∨ operation.reports = true := by
  generalize hr : (Except.ok a : Except Fatal Table.Answer) = r at h
  cases h with
  | indexOf hindex =>
    cases h' with
    | indexOf hindex' =>
      subst hindex hindex'
      exact Or.inl rfl
    | shown hshown => simp [Operation.shown?] at hshown
  | pointerOf hpointer =>
    cases h' with
    | pointerOf hpointer' =>
      subst hpointer hpointer'
      exact Or.inl rfl
    | shown hshown => simp [Operation.shown?] at hshown
  | @shown operation _ hshown =>
    cases operation with
    | dump | debug => exact Or.inr rfl
    | table | indexOf | pointerOf => simp [Operation.shown?] at hshown
  | @plain operation _ _ hplain =>
    cases h' with
    | shown hshown' => simp [Operation.shown?] at hshown'
    | plain hplain' =>
      subst hr
      cases operation with
      | endIndex | isTagged => exact Or.inr rfl
      | isNull | tag =>
        have hanswer := (Prod.mk.inj (Option.some.inj hplain)).1
        have hanswer' := (Prod.mk.inj (Option.some.inj hplain')).1
        exact Or.inl (hanswer'.symm.trans hanswer)
      | slot i =>
        have hanswer : (slots.get i).map .slot = .ok a := (Prod.mk.inj (Option.some.inj hplain)).1
        have hanswer' := (Prod.mk.inj (Option.some.inj hplain')).1
        cases hget : slots.get? i with
        | none => simp [SlotStore.get, hget, Except.map] at hanswer
        | some slot =>
          have hsame := hslots.get?_of_prefix hinitial (hslots.lt_of_get? hget)
          left
          rw [← hanswer', ← hanswer]
          simp only [SlotStore.get, hsame, hget]
      | indexAt | existingIndexAt => simp [Table.Operation.plain?] at hplain

/-- A server that has all of the client's slots has them all again when it has taken in what the client answers. -/
theorem Handled.slots_eq {client t : Site} {request : Request} {response : Response} (hclient : client.table.slots.Fits)
    (hslots : slots = client.table.slots) (hrequest : operation.request? = some request)
    (hserve : (Site.serve request).Ends client (.ok response) t)
    (h : Handled slots tags operation (some (heard (.ok (.ok response)))) r after later) : after = t.table.slots := by
  have hserved := Site.served_of_ends hclient hserve
  cases operation with
  | indexOf | pointerOf | dump | debug => simp [Operation.request?] at hrequest
  | table operation =>
    cases operation with
    | endIndex | isNull | slot | tag | isTagged => simp [Operation.request?] at hrequest
    | indexAt location constant =>
      obtain rfl := Option.some.inj hrequest
      cases hserved with
      | refused =>
        cases h
        exact hslots
      | entered _ hlooked hslot =>
        obtain ⟨hgrown, hinitial⟩ := hlooked.grows hclient
        cases h with
        | looked hreconciled =>
          have htook := hreconciled.took hgrown (hslots ▸ hinitial) hslot
          have hperformed : Performed ⟨.loopback ⟨none⟩, slots, tags⟩ client (.table (.indexAt location constant)) _
              ⟨.loopback ⟨none⟩, after, _⟩ t := .looked rfl hserve .straight htook
          exact hperformed.slots_eq hclient hslots
        | notAnIndex hreply => exact absurd rfl (hreply _ _)
    | existingIndexAt location =>
      obtain rfl := Option.some.inj hrequest
      cases hserved with
      | refused =>
        cases h
        exact hslots
      | found =>
        cases h with
        | asked => exact hslots
        | notExisting hreply => exact absurd rfl (hreply _)
      | entered henters => simp [Request.enters] at henters

end

end Server

/-! ### Both sides -/

/-- A server that is joined to its client by two pipes. -/
abbrev Wired := Server (StreamChannel FarEnd)

namespace Wired

/-- Either the server is asked for something, or something happens to the heap of the client. A server that waits for a response sees nothing of the heap, so what happens to it meanwhile comes to the same before or after the operation. -/
inductive Step where
  | heap (operation : Heap.Operation)
  | server (operation : Server.Operation)
deriving DecidableEq

/-- A server and a client with empty tables, and how many bytes the two pipes take, if they are cut. -/
def start (heap : Heap) (requestCut replyCut : Option Nat) : Wired :=
  .ofChannel ⟨⟨[], requestCut⟩, .ofBytes [], ⟨⟨heap, .empty heap.id⟩, ⟨[], replyCut⟩, false⟩⟩

def client (s : Wired) : Site := s.channel.peer.client

def perform (s : Wired) : Step → Except Fatal Table.Answer × Wired
  | .heap operation =>
    let o := (Site.perform (.heap operation)).run s.client
    (o.result, { s with channel := { s.channel with peer := { s.channel.peer with client := o.state } } })
  | .server operation =>
    let o := (Server.perform operation).run s
    (o.result, { o.state with channel := o.state.channel.close })

/-- What a script leaves, where each failure is caught. -/
def after (s : Wired) (script : List Step) : Wired := script.foldl (fun s step => (s.perform step).2) s

/-- The step needs the client, whose service goes on, and its request or the response does not fit the pipe. -/
def Severs (s : Wired) : Step → Prop
  | .heap _ => False
  | .server operation => s.channel.peer.ended = false ∧ ∃ request, operation.request? = some request ∧
    (s.channel.sink.Lacks (frame request) ∨ ∃ response t, (Site.serve request).Ends s.client (.ok response) t ∧
      s.channel.peer.replies.Lacks (frame response))

/-- A cut has severed one of the steps. -/
def Affected (s : Wired) (script : List Step) : Prop :=
  ∃ before step rest, script = before ++ step :: rest ∧ (s.after before).Severs step

@[simp] theorem after_append_singleton (s : Wired) (script : List Step) (step : Step) :
    s.after (script ++ [step]) = ((s.after script).perform step).2 := by
  simp [after]

theorem affected_append_singleton_iff {s : Wired} {script : List Step} {step : Step} :
    s.Affected (script ++ [step]) ↔ s.Affected script ∨ (s.after script).Severs step := by
  constructor
  · rintro ⟨before, severed, rest, hscript, hsevers⟩
    rcases List.eq_nil_or_concat rest with rfl | ⟨rest, last, rfl⟩
    · obtain ⟨rfl, hstep⟩ := List.append_inj' hscript rfl
      obtain rfl := List.singleton_inj.1 hstep
      exact Or.inr hsevers
    · rw [List.concat_eq_append, ← List.cons_append, ← List.append_assoc] at hscript
      exact Or.inl ⟨before, severed, rest, (List.append_inj' hscript rfl).1, hsevers⟩
  · rintro (⟨before, severed, rest, rfl, hsevers⟩ | hsevers)
    · exact ⟨before, severed, rest ++ [step], by simp, hsevers⟩
    · exact ⟨script, step, [], rfl, hsevers⟩

/-- The service waits for the next request, and both sides have the same slots. -/
structure Joined (s : Wired) : Prop where
  source : s.channel.source = .ofBytes []
  waiting : s.channel.peer.ended = false
  slots : s.slots = s.client.table.slots
  fits : s.slots.Fits

/-- The service is over, and nothing more can be written to it. -/
structure Parted (s : Wired) : Prop where
  ended : s.channel.peer.ended = true
  full : s.channel.sink.Full
  near : s.slots.Near s.client.table.slots
  fits : s.slots.Fits

/-! ### One operation -/

/-- How an operation ends while the sides are joined. -/
inductive Performs (s : Wired) (operation : Server.Operation) : Except Fatal Table.Answer → Wired → Prop
  | plain {r : Except Fatal Table.Answer} {tags : IndexSet} : operation.request? = none →
    Server.Handled s.slots s.constantElements operation none r s.slots tags →
    Performs s operation r { s with constantElements := tags }
  | answered {request : Request} {response : Response} {t : Site} {r : Except Fatal Table.Answer} {slots : SlotStore}
      {tags : IndexSet} {sent replied : List UInt8} : operation.request? = some request →
    ¬s.Severs (.server operation) → (Site.serve request).Ends s.client (.ok response) t →
    Server.Handled s.slots s.constantElements operation (some (Server.heard (.ok (.ok response)))) r slots tags →
    Performs s operation r ⟨⟨{ s.channel.sink with written := sent }, .ofBytes [],
      ⟨t, { s.channel.peer.replies with written := replied }, false⟩⟩, slots, tags⟩
  | failed {request : Request} {f : Fatal} {t : Site} {channel : StreamChannel FarEnd} :
    operation.request? = some request → ¬s.Severs (.server operation) →
    (Site.serve request).Ends s.client (.error f) t → channel.sink.Full → channel.peer.ended = true →
    channel.peer.client = t →
    Performs s operation (.error (.channel .closed)) ⟨channel, s.slots, s.constantElements⟩
  | severed {request : Request} {e : ChannelError} {t : Site} {channel : StreamChannel FarEnd} :
    operation.request? = some request → s.Severs (.server operation) → e.isBreak = true →
    t = s.client ∨ (∃ response, (Site.serve request).Ends s.client (.ok response) t ∧
      s.channel.peer.replies.Lacks (frame response)) →
    channel.sink.Full → channel.peer.ended = true → channel.peer.client = t →
    Performs s operation (.error (.channel e)) ⟨channel, s.slots, s.constantElements⟩

section

variable {s u : Wired} {operation : Server.Operation} {r : Except Fatal Table.Answer}

theorem severs_iff (hwaiting : s.channel.peer.ended = false) {request : Request} (hrequest : operation.request? = some request) :
    s.Severs (.server operation) ↔ s.channel.sink.Lacks (frame request) ∨
      ∃ response t, (Site.serve request).Ends s.client (.ok response) t ∧ s.channel.peer.replies.Lacks (frame response) := by
  simp [Severs, hwaiting, hrequest]

/-- An operation puts its question to the channel, which is closed afterwards if the service is over. -/
theorem exists_perform (hs : s.slots.Fits) (operation : Server.Operation) : ∃ r slots tags,
    s.perform (.server operation) = (r, ⟨(Channel.after s.channel operation.request?.toList).close, slots, tags⟩) ∧
      Server.Handled s.slots s.constantElements operation
        (operation.request?.map fun request => Server.heard (Channel.answer s.channel request)) r slots tags := by
  obtain ⟨r, slots, tags, hends, hhandled⟩ := Server.exists_handled hs operation
  refine ⟨r, slots, tags, ?_, hhandled⟩
  simp only [perform]
  rw [hends.1, hends.2]

theorem Performs.of_called {request : Request} {answer : Except ChannelError Response} {d : StreamChannel FarEnd}
    {slots : SlotStore} {tags : IndexSet} (hs : s.Joined) (hrequest : operation.request? = some request)
    (hcalled : s.channel.Called request answer d)
    (hhandled : Server.Handled s.slots s.constantElements operation (some (Server.heard (.ok answer))) r slots tags) :
    Performs s operation r ⟨d.close, slots, tags⟩ := by
  have hsevers := severs_iff hs.waiting hrequest
  have hpeer : d.close.peer = d.peer := StreamChannel.peer_close d
  cases hcalled with
  | unsent hlacks hclient hended =>
    obtain ⟨rfl, rfl, rfl⟩ := hhandled.of_unheard
    exact .severed hrequest (hsevers.2 (Or.inl hlacks)) rfl (Or.inl rfl) (StreamChannel.full_close hended)
      (hpeer ▸ hended) (hpeer ▸ hclient)
  | failed hroom hserve hclient hended =>
    obtain ⟨rfl, rfl, rfl⟩ := hhandled.of_unheard
    refine .failed hrequest ?_ hserve (StreamChannel.full_close hended) (hpeer ▸ hended) (hpeer ▸ hclient)
    intro hcut
    rcases hsevers.1 hcut with hlacks | ⟨response, t, hserve', -⟩
    · exact hroom hlacks
    · exact absurd (hserve.unique hserve').1 (by simp)
  | unanswered hroom hserve hlacks he hclient hended =>
    obtain ⟨rfl, rfl, rfl⟩ := hhandled.of_unheard
    refine .severed hrequest (hsevers.2 (Or.inr ⟨_, _, hserve, hlacks⟩)) ?_ (Or.inr ⟨_, hserve, hlacks⟩)
      (StreamChannel.full_close hended) (hpeer ▸ hended) (hpeer ▸ hclient)
    rcases he with rfl | rfl <;> rfl
  | answered hroom hserve hreplies =>
    rw [StreamChannel.close_of_waiting rfl]
    refine .answered hrequest ?_ hserve hhandled
    intro hcut
    rcases hsevers.1 hcut with hlacks | ⟨response, t, hserve', hlacks⟩
    · exact hroom hlacks
    · obtain rfl := Except.ok.inj (hserve.unique hserve').1
      exact hreplies hlacks

theorem Joined.performs (hs : s.Joined) (operation : Server.Operation) :
    Performs s operation (s.perform (.server operation)).1 (s.perform (.server operation)).2 := by
  obtain ⟨r, slots, tags, hperform, hhandled⟩ := exists_perform hs.fits operation
  rw [hperform]
  cases hrequest : operation.request? with
  | none =>
    rw [hrequest] at hhandled
    obtain rfl := hhandled.slots_eq_of_none
    have hclose : (Channel.after s.channel []).close = s.channel := StreamChannel.close_of_waiting hs.waiting
    simp only [Option.toList_none]
    rw [hclose]
    exact .plain hrequest hhandled
  | some request =>
    obtain ⟨answer, d, hcall, hcalled⟩ := StreamChannel.exists_called hs.source hs.waiting request
    have hanswer : Channel.answer s.channel request = .ok answer := hcall.1
    have hafter : Channel.after s.channel [request] = d := hcall.2
    rw [hrequest, Option.map_some, hanswer] at hhandled
    simp only [Option.toList_some]
    rw [hafter]
    exact .of_called hs hrequest hcalled hhandled

/-- What the client has added is near to what the server had, also before the response is taken in. -/
theorem Performs.next (hs : s.Joined) (h : Performs s operation r u) :
    s.slots.Near u.client.table.slots ∧ (u.Joined ∨ u.Parted) := by
  have hclient : s.client.table.slots.Fits := hs.slots ▸ hs.fits
  have hnear : ∀ {request : Request} {q : Except Fatal Response} {t : Site}, (Site.serve request).Ends s.client q t →
      s.slots.Near t.table.slots := by
    intro request q t hserve
    rw [hs.slots]
    exact SlotStore.near_of_eq_or ((Site.served_of_ends hclient hserve).slots_eq_or hclient)
  cases h with
  | plain => exact ⟨hs.slots ▸ .refl _, Or.inl ⟨hs.source, hs.waiting, hs.slots, hs.fits⟩⟩
  | answered hrequest _ hserve hhandled =>
    have hslots := hhandled.slots_eq hclient hs.slots hrequest hserve
    exact ⟨hnear hserve, Or.inl ⟨rfl, rfl, hslots, (hhandled.slots_eq_or hs.fits).1⟩⟩
  | failed _ _ hserve hfull hended ht =>
    subst ht
    exact ⟨hnear hserve, Or.inr ⟨hended, hfull, hnear hserve, hs.fits⟩⟩
  | @severed _ _ _ channel _ _ _ hcut hfull hended ht =>
    subst ht
    have hleft : s.slots.Near channel.peer.client.table.slots := by
      rcases hcut with hsame | ⟨response, hserve, -⟩
      · rw [hsame]
        exact hs.slots ▸ .refl _
      · exact hnear hserve
    exact ⟨hleft, Or.inr ⟨hended, hfull, hleft, hs.fits⟩⟩

/-- Once the sides have parted, a question fails at the pipe and nothing else changes anything but tags. -/
theorem Parted.performs (hs : s.Parted) (operation : Server.Operation) : ∃ r tags,
    s.perform (.server operation) = (r, ⟨s.channel.close, s.slots, tags⟩) ∧
      Server.Handled s.slots s.constantElements operation
        (operation.request?.map fun _ => .error (.channel (.transfer .outputFull))) r s.slots tags := by
  obtain ⟨r, slots, tags, hperform, hhandled⟩ := exists_perform hs.fits operation
  have hcall := StreamChannel.call_ends_of_full hs.full hs.ended
  have hafter : Channel.after s.channel operation.request?.toList = s.channel := by
    cases operation.request? with
    | none => rfl
    | some request => exact (hcall request).2
  have hheard : (operation.request?.map fun request => Server.heard (Channel.answer s.channel request)) =
      operation.request?.map fun _ => .error (.channel (.transfer .outputFull)) := by
    congr 1
    funext request
    exact congrArg Server.heard (hcall request).1
  rw [hafter] at hperform
  rw [hheard] at hhandled
  have hslots : slots = s.slots := by
    cases hrequest : operation.request? with
    | none =>
      rw [hrequest] at hhandled
      exact hhandled.slots_eq_of_none
    | some request =>
      rw [hrequest] at hhandled
      exact hhandled.of_unheard.2.1
  subst hslots
  exact ⟨r, tags, hperform, hhandled⟩

/-- A severed operation fails and leaves slots and tags, and the sides part. -/
theorem Joined.severed (hs : s.Joined) (hsevers : s.Severs (.server operation)) :
    (s.perform (.server operation)).2.Parted ∧ (s.perform (.server operation)).2.contents = s.contents ∧
      ∃ e : ChannelError, (s.perform (.server operation)).1 = .error (.channel e) ∧ e.isBreak = true := by
  have hperforms := hs.performs operation
  have hnext := (hperforms.next hs).2
  generalize s.perform (.server operation) = o at hperforms hnext ⊢
  obtain ⟨r, u⟩ := o
  cases hperforms with
  | plain hnone =>
    obtain ⟨-, request, hrequest, -⟩ := hsevers
    simp [hnone] at hrequest
  | answered _ hkept | failed _ hkept => exact absurd hsevers hkept
  | @severed _ e _ _ _ _ he _ _ hended =>
    have hparted := hnext.resolve_left fun hjoined => absurd (hended.symm.trans hjoined.waiting) (by decide)
    exact ⟨hparted, rfl, e, rfl, he⟩

end

/-! ### One step -/

section

variable {s u : Wired}

theorem Parted.not_severs (hs : s.Parted) (step : Step) : ¬s.Severs step := by
  cases step with
  | heap => exact id
  | server operation =>
    rintro ⟨hwaiting, -⟩
    simp [hs.ended] at hwaiting

theorem Parted.peer_perform (hs : s.Parted) (operation : Server.Operation) :
    (s.perform (.server operation)).2.channel.peer = s.channel.peer := by
  obtain ⟨r, tags, hperform, -⟩ := hs.performs operation
  rw [hperform]
  exact StreamChannel.peer_close _

/-- After the sides have parted nothing changes the slots of either. -/
theorem Parted.perform (hs : s.Parted) (step : Step) : (s.perform step).2.Parted ∧
    (s.perform step).2.slots = s.slots ∧ (s.perform step).2.client.table.slots = s.client.table.slots := by
  cases step with
  | heap operation => exact ⟨⟨hs.ended, hs.full, hs.near, hs.fits⟩, rfl, rfl⟩
  | server operation =>
    obtain ⟨r, tags, hperform, -⟩ := hs.performs operation
    have hpeer := hs.peer_perform operation
    have hclient : (s.perform (.server operation)).2.client = s.client := congrArg FarEnd.client hpeer
    have hslots : (s.perform (.server operation)).2.slots = s.slots := by rw [hperform]
    refine ⟨⟨hpeer ▸ hs.ended, ?_, hclient ▸ hslots ▸ hs.near, hslots ▸ hs.fits⟩, hslots, by rw [hclient]⟩
    rw [hperform]
    exact StreamChannel.full_close hs.ended

/-- After the sides have parted every lookup fails, and slots and tags stay as they are. -/
theorem Parted.lookup (hs : s.Parted) {operation : Server.Operation} (hasks : operation.request?.isSome = true) :
    (s.perform (.server operation)).1 = .error (.channel (.transfer .outputFull)) ∧
      (s.perform (.server operation)).2.contents = s.contents := by
  obtain ⟨request, hrequest⟩ := Option.isSome_iff_exists.1 hasks
  obtain ⟨r, tags, hperform, hhandled⟩ := hs.performs operation
  rw [hrequest] at hhandled
  obtain ⟨rfl, -, rfl⟩ := hhandled.of_unheard
  rw [hperform]
  exact ⟨rfl, rfl⟩

theorem Parted.asks_nobody (hs : s.Parted) {operation : Server.Operation} {a : Table.Answer}
    (h : (s.perform (.server operation)).1 = .ok a) : operation.request? = none := by
  cases hrequest : operation.request? with
  | none => rfl
  | some request =>
    have hfails := (hs.lookup (Option.isSome_iff_exists.2 ⟨request, hrequest⟩)).1
    simp [h] at hfails

/-- The slots of a server only grow. -/
theorem grows_perform (hs : s.slots.Fits) (step : Step) :
    (s.perform step).2.slots.Fits ∧ s.slots.handles <+: (s.perform step).2.slots.handles := by
  cases step with
  | heap => exact ⟨hs, List.prefix_rfl⟩
  | server operation =>
    obtain ⟨r, slots, tags, hperform, hhandled⟩ := exists_perform hs operation
    rw [hperform]
    obtain ⟨hfits, rfl | ⟨handle, rfl⟩⟩ := hhandled.slots_eq_or hs
    · exact ⟨hfits, List.prefix_rfl⟩
    · exact ⟨hfits, List.prefix_append _ _⟩

/-- An operation that asks nobody has the same answer wherever slots and tags are the same. -/
theorem perform_eq_of_contents (hs : s.slots.Fits) (hcontents : s.contents = u.contents) {operation : Server.Operation}
    (hnone : operation.request? = none) : (s.perform (.server operation)).1 = (u.perform (.server operation)).1 := by
  obtain ⟨hslots, htags⟩ := Prod.mk.inj hcontents
  obtain ⟨r, slots, tags, hperform, hhandled⟩ := exists_perform hs operation
  obtain ⟨q, slots', tags', hperform', hhandled'⟩ := exists_perform (hslots ▸ hs) operation
  rw [hnone] at hhandled hhandled'
  rw [← hslots, ← htags] at hhandled'
  rw [hperform, hperform']
  exact (hhandled.unique hs hhandled').1

def Settled (s : Wired) : Prop := s.Joined ∨ s.Parted

theorem Settled.fits (hs : s.Settled) : s.slots.Fits := hs.elim Joined.fits Parted.fits

theorem Settled.perform (hs : s.Settled) (step : Step) : (s.perform step).2.Settled := by
  rcases hs with hs | hs
  · cases step with
    | heap => exact Or.inl ⟨hs.source, hs.waiting, hs.slots, hs.fits⟩
    | server operation => exact ((hs.performs operation).next hs).2
  · exact Or.inr (hs.perform step).1

theorem Settled.near (hs : s.Settled) : s.slots.Near s.client.table.slots := by
  rcases hs with hjoined | hparted
  · exact hjoined.slots ▸ .refl _
  · exact hparted.near

theorem Settled.near_amid (hs : s.Settled) (operation : Server.Operation) :
    s.slots.Near (s.perform (.server operation)).2.client.table.slots := by
  rcases hs with hjoined | hparted
  · exact ((hjoined.performs operation).next hjoined).1
  · rw [(hparted.perform (.server operation)).2.2]
    exact hparted.near

/-- The client added a slot for the request of an operation, which left it with `t`, and the response does not fit the pipe. -/
def Strands (s : Wired) (operation : Server.Operation) (t : Site) : Prop :=
  ∃ request response handle, operation.request? = some request ∧ (Site.serve request).Ends s.client (.ok response) t ∧
    s.channel.peer.replies.Lacks (frame response) ∧ t.table.slots = ⟨s.slots.handles ++ [handle]⟩

/-- A step that does not strand a slot leaves both sides with the same ones. -/
theorem Joined.strands (hs : s.Joined) (step : Step) :
    (s.perform step).2.slots = (s.perform step).2.client.table.slots ∨ ∃ operation, step = .server operation ∧
      s.Strands operation (s.perform step).2.client ∧ (s.perform step).2.slots = s.slots := by
  have hclient : s.client.table.slots.Fits := hs.slots ▸ hs.fits
  cases step with
  | heap => exact Or.inl hs.slots
  | server operation =>
    have hperforms := hs.performs operation
    generalize s.perform (.server operation) = o at hperforms ⊢
    obtain ⟨r, u⟩ := o
    cases hperforms with
    | plain => exact Or.inl hs.slots
    | answered hrequest _ hserve hhandled => exact Or.inl (hhandled.slots_eq hclient hs.slots hrequest hserve)
    | failed _ _ hserve _ _ ht =>
      subst ht
      cases Site.served_of_ends hclient hserve with
      | failed _ hsame => exact Or.inl (hs.slots.trans hsame.symm)
    | @severed request _ _ channel hrequest _ _ hcut _ _ ht =>
      subst ht
      rcases hcut with hsame | ⟨response, hserve, hlacks⟩
      · left
        show s.slots = channel.peer.client.table.slots
        rw [hsame, hs.slots]
      · rcases (Site.served_of_ends hclient hserve).slots_eq_or hclient with hsame | ⟨handle, hadded⟩
        · exact Or.inl (hs.slots.trans hsame.symm)
        · exact Or.inr ⟨operation, rfl, ⟨request, response, handle, hrequest, hserve, hlacks, hs.slots ▸ hadded⟩, rfl⟩

end

end Wired

end KnownObjects
