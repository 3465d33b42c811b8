import KnownObjects.Proofs.Split.Reconciliation

/-!
# A server with any peer

Here nothing at all is known about the other end of the channel: it may answer a request with any reply, with a refusal, with bytes that are no message, or not at all. `Server.Handled` lists what an operation can make of what is heard, and it does not mention the channel, so a server treats two channels alike as long as it hears the same.

A peer can make the server learn slots, one at a time, and nothing else: no slot is ever replaced or lost, an operation that fails has changed neither slots nor tags, and each lookup puts one question, all other operations none. To speak of the questions, a channel is tapped. That makes no difference to the server.
-/

namespace KnownObjects

/-- A channel with a record of the requests that went into it. -/
structure Tapped (χ : Type) where
  channel : χ
  sent : List Request
deriving DecidableEq

variable {χ : Type} [Channel χ]

instance : Channel (Tapped χ) where
  call request c := ((Channel.call request).run c.channel).mapState fun channel => ⟨channel, c.sent ++ [request]⟩

namespace Channel

/-- What comes back for a request. -/
def answer (channel : χ) (request : Request) : Except Fatal (Except ChannelError Response) :=
  ((Channel.call request).run channel).result

/-- The channel after some requests, whatever came back for them. -/
def after (channel : χ) (requests : List Request) : χ :=
  requests.foldl (fun c request => ((Channel.call request : Action Fatal χ _).run c).state) channel

theorem call_ends (channel : χ) (request : Request) :
    (Channel.call request : Action Fatal χ _).Ends channel (answer channel request) (after channel [request]) :=
  ⟨rfl, rfl⟩

theorem after_append (channel : χ) (first second : List Request) :
    after channel (first ++ second) = after (after channel first) second :=
  List.foldl_append

theorem after_tapped (channel : χ) (sent requests : List Request) :
    after (⟨channel, sent⟩ : Tapped χ) requests = ⟨after channel requests, sent ++ requests⟩ := by
  induction requests generalizing channel sent with
  | nil => exact congrArg (Tapped.mk channel) (List.append_nil sent).symm
  | cons request rest ih =>
    have hrest := ih (after channel [request]) (sent ++ [request])
    rwa [List.append_assoc] at hrest

end Channel

namespace SlotStore

/-- Slot 0 is null, every later slot holds a handle, and nothing follows the last one. -/
structure Shaped (s : SlotStore) : Prop where
  first : s.get? .null = some .null
  later : ∀ i, i ≠ .null → i < s.size → ∃ h, s.get? i = some (.ref h)
  bounded : ∀ i, s.size ≤ i → s.get? i = none

theorem Fits.shaped {s : SlotStore} (hs : s.Fits) : s.Shaped where
  first := rfl
  later := by
    intro i hi hlt
    have hplace : i.toNat < s.handles.length + 1 := hs.toNat_size ▸ hlt
    have hpositive : i.toNat ≠ 0 := fun hzero => hi (Index.ext_toNat hzero)
    have hget := hs.get?_ofNat_succ (List.getElem?_eq_getElem (show i.toNat - 1 < s.handles.length by omega))
    rw [Nat.sub_add_cancel (Nat.pos_of_ne_zero hpositive), Index.ofNat_toNat] at hget
    exact ⟨_, hget⟩
  bounded := fun _ hle => hs.get?_eq_none_iff.2 hle

end SlotStore

namespace Server

theorem heard_eq_ok_iff {r : Except Fatal (Except ChannelError Response)} {reply : Reply} :
    heard r = .ok reply ↔ r = .ok (.ok (.reply reply)) := by
  match r with
  | .ok (.ok (.reply reply')) => simp [heard]
  | .ok (.ok (.refusal text)) => simp [heard]
  | .ok (.error e) => simp [heard]
  | .error f => simp [heard]

/-- What an operation makes of what is heard in answer to its question, if it has one: its own answer, and the slots and tags afterwards. -/
inductive Handled (slots : SlotStore) (tags : IndexSet) :
    Operation → Option (Except Fatal Reply) → Except Fatal Table.Answer → SlotStore → IndexSet → Prop
  | plain {operation : Table.Operation} {r : Except Fatal Table.Answer} {after : IndexSet} :
    operation.plain? slots tags = some (r, after) → Handled slots tags (.table operation) none r slots after
  | indexOf {object : Address} {r : Except Fatal Index} :
    r = (if object.isNull then .ok .null else .error (.forbiddenOnServer "index_of")) →
    Handled slots tags (.indexOf object) none (r.map .index) slots tags
  | pointerOf {i : Index} {r : Except Fatal Address} :
    r = (if i.isNull then .ok .null else .error (.forbiddenOnServer "pointer_of")) →
    Handled slots tags (.pointerOf i) none (r.map .pointer) slots tags
  | shown {operation : Operation} {answer : Table.Answer} : operation.shown? slots = some answer →
    Handled slots tags operation none (.ok answer) slots tags
  | unheard {operation : Operation} {f : Fatal} : operation.request?.isSome →
    Handled slots tags operation (some (.error f)) (.error f) slots tags
  | looked {location : Location} {constant : Bool} {i : Index} {reported : Slot} {r : Except Fatal Unit}
      {after : SlotStore} : Reconciled slots i reported r after →
    Handled slots tags (.table (.indexAt location constant)) (some (.ok (.index i reported)))
      ((r.map fun _ => i).map .index) after (tags.tagAfter constant (r.map fun _ => i))
  | asked {location : Location} {i : Index} :
    Handled slots tags (.table (.existingIndexAt location)) (some (.ok (.existingIndex i))) (.ok (.index i)) slots tags
  | notAnIndex {location : Location} {constant : Bool} {reply : Reply} : (∀ i slot, reply ≠ .index i slot) →
    Handled slots tags (.table (.indexAt location constant)) (some (.ok reply))
      (.error (.channel (.unexpectedReply "Index" reply))) slots tags
  | notExisting {location : Location} {reply : Reply} : (∀ i, reply ≠ .existingIndex i) →
    Handled slots tags (.table (.existingIndexAt location)) (some (.ok reply))
      (.error (.channel (.unexpectedReply "ExistingIndex" reply))) slots tags

theorem ask_ends_heard (s : Server χ) (request : Request) :
    (ask request).Ends s (heard (Channel.answer s.channel request))
      { s with channel := Channel.after s.channel [request] } :=
  ask_ends (Channel.call_ends s.channel request)

theorem indexAt_handled {s : Server χ} (hs : s.slots.Fits) (location : Location) (constant : Bool) :
    ∃ r slots tags, (indexAt location constant).Ends s r
        ⟨Channel.after s.channel [.getIndexAt location], slots, tags⟩ ∧
      Handled s.slots s.constantElements (.table (.indexAt location constant))
        (some (heard (Channel.answer s.channel (.getIndexAt location)))) (r.map .index) slots tags := by
  have hask := ask_ends_heard s (.getIndexAt location)
  cases hheard : heard (Channel.answer s.channel (.getIndexAt location)) with
  | error f =>
    rw [hheard] at hask
    exact ⟨_, _, _, indexAt_ends (lookup_ends_error hask) constant, .unheard rfl⟩
  | ok reply =>
    rw [hheard] at hask
    cases reply with
    | index i reported =>
      obtain ⟨r, slots, hreconcile, hreconciled⟩ :=
        exists_reconciled (s := { s with channel := Channel.after s.channel [.getIndexAt location] }) hs i reported
      exact ⟨_, slots, _, indexAt_ends (lookup_ends hask hreconcile) constant, .looked hreconciled⟩
    | existingIndex i =>
      have hlookup : (lookup location).Ends s _ _ := hask.bind (Action.raise_ends _ _)
      exact ⟨_, _, _, indexAt_ends hlookup constant, .notAnIndex (by simp)⟩
    | pointer a =>
      have hlookup : (lookup location).Ends s _ _ := hask.bind (Action.raise_ends _ _)
      exact ⟨_, _, _, indexAt_ends hlookup constant, .notAnIndex (by simp)⟩

theorem existingIndexAt_handled (s : Server χ) (location : Location) :
    ∃ r slots tags, (existingIndexAt location).Ends s r
        ⟨Channel.after s.channel [.getExistingIndexAt location], slots, tags⟩ ∧
      Handled s.slots s.constantElements (.table (.existingIndexAt location))
        (some (heard (Channel.answer s.channel (.getExistingIndexAt location)))) (r.map .index) slots tags := by
  have hask := ask_ends_heard s (.getExistingIndexAt location)
  cases hheard : heard (Channel.answer s.channel (.getExistingIndexAt location)) with
  | error f =>
    rw [hheard] at hask
    exact ⟨_, _, _, hask.bind_error, .unheard rfl⟩
  | ok reply =>
    rw [hheard] at hask
    cases reply with
    | existingIndex i => exact ⟨.ok i, _, _, hask.bind (Action.pure_ends i _), .asked⟩
    | index i reported => exact ⟨_, _, _, hask.bind (Action.raise_ends _ _), .notExisting (by simp)⟩
    | pointer a => exact ⟨_, _, _, hask.bind (Action.raise_ends _ _), .notExisting (by simp)⟩

/-- Every operation ends in one of the ways listed, and puts its question and no other. -/
theorem exists_handled {s : Server χ} (hs : s.slots.Fits) (operation : Operation) :
    ∃ r slots tags, (perform operation).Ends s r ⟨Channel.after s.channel operation.request?.toList, slots, tags⟩ ∧
      Handled s.slots s.constantElements operation
        (operation.request?.map fun request => heard (Channel.answer s.channel request)) r slots tags := by
  cases operation with
  | table operation =>
    cases operation with
    | endIndex | isNull | slot | isTagged | tag => exact ⟨_, _, _, onTable_ends_of_plain rfl, .plain rfl⟩
    | indexAt location constant =>
      obtain ⟨r, slots, tags, hends, hhandled⟩ := indexAt_handled hs location constant
      exact ⟨_, slots, tags, hends.map Table.Answer.index, hhandled⟩
    | existingIndexAt location =>
      obtain ⟨r, slots, tags, hends, hhandled⟩ := existingIndexAt_handled s location
      exact ⟨_, slots, tags, hends.map Table.Answer.index, hhandled⟩
  | indexOf object => exact ⟨_, _, _, (indexOf_ends object s).map Table.Answer.index, .indexOf rfl⟩
  | pointerOf i => exact ⟨_, _, _, (pointerOf_ends i s).map Table.Answer.pointer, .pointerOf rfl⟩
  | dump | debug => exact ⟨_, _, _, perform_ends_of_shown rfl, .shown rfl⟩

/-! ### One operation -/

section

variable {slots after : SlotStore} {tags later : IndexSet}

theorem Reconciled.unique {i : Index} {reported : Slot} {r q : Except Fatal Unit} {after' : SlotStore}
    (hslots : slots.Fits) (h : Reconciled slots i reported r after) (h' : Reconciled slots i reported q after') :
    r = q ∧ after = after' := by
  have hsize : slots.size.toNat < Index.unknown.toNat := hslots.toNat_size ▸ hslots
  have hnext : slots.size ≠ .unknown := fun heq => Nat.lt_irrefl _ (heq ▸ hsize)
  cases h <;> cases h' <;> grind

/-- What is heard decides what an operation does. -/
theorem Handled.unique {operation : Operation} {reply : Option (Except Fatal Reply)} {r q : Except Fatal Table.Answer}
    {after' : SlotStore} {later' : IndexSet} (hslots : slots.Fits)
    (h : Handled slots tags operation reply r after later) (h' : Handled slots tags operation reply q after' later') :
    r = q ∧ after = after' ∧ later = later' := by
  cases h with
  | looked hreconciled =>
    cases h' with
    | looked hreconciled' =>
      obtain ⟨rfl, rfl⟩ := hreconciled.unique hslots hreconciled'
      exact ⟨rfl, rfl, rfl⟩
    | notAnIndex hreply => exact absurd rfl (hreply _ _)
  | plain hplain =>
    cases h' with
    | plain hplain' =>
      obtain ⟨rfl, rfl⟩ := Prod.mk.inj (Option.some.inj (hplain.symm.trans hplain'))
      exact ⟨rfl, rfl, rfl⟩
    | shown hshown => simp [Operation.shown?] at hshown
  | shown hshown =>
    cases h' with
    | shown hshown' =>
      obtain rfl := Option.some.inj (hshown.symm.trans hshown')
      exact ⟨rfl, rfl, rfl⟩
    | plain | indexOf | pointerOf => simp [Operation.shown?] at hshown
  | indexOf hr =>
    cases h' with
    | indexOf hr' => exact ⟨by rw [hr, hr'], rfl, rfl⟩
    | shown hshown => simp [Operation.shown?] at hshown
  | pointerOf hr =>
    cases h' with
    | pointerOf hr' => exact ⟨by rw [hr, hr'], rfl, rfl⟩
    | shown hshown => simp [Operation.shown?] at hshown
  | unheard | asked | notAnIndex | notExisting => cases h' <;> simp_all

theorem Reconciled.slots_eq_or {i : Index} {reported : Slot} {r : Except Fatal Unit} (hslots : slots.Fits)
    (h : Reconciled slots i reported r after) :
    after = slots ∨ ∃ g, i = slots.size ∧ reported = .ref g ∧ slots.handles.length + 2 < 4294967295 ∧
      after = ⟨slots.handles ++ [g]⟩ := by
  cases h with
  | @learnt g _ hi href happend =>
    obtain ⟨hroom, -, hafter⟩ := hslots.append?_eq_some_iff.1 happend
    exact Or.inr ⟨g, hi, href, hroom, hafter⟩
  | unknown | ahead | blank | full | agreed | contradicted => exact Or.inl rfl

/-- What is taken in is then found at its index, unless there was nothing to take in. -/
theorem Reconciled.get? {i : Index} {reported : Slot} (hslots : slots.Fits) (h : Reconciled slots i reported (.ok ()) after) :
    i = .unknown ∧ after = slots ∨ i < after.size ∧ after.get? i = some reported := by
  cases h with
  | unknown hi => exact Or.inl ⟨hi, rfl⟩
  | agreed hlt hget => exact Or.inr ⟨hlt, hget⟩
  | learnt hi href happend =>
    have hgrown := hslots.of_append? happend
    obtain ⟨-, -, rfl⟩ := hslots.append?_eq_some_iff.1 happend
    subst hi href
    refine Or.inr ⟨?_, hgrown.get?_ofNat_succ (by simp)⟩
    show slots.size.toNat < (SlotStore.size _).toNat
    rw [hgrown.toNat_size, hslots.toNat_size]
    simp

/-- The slots stay as they are, or one is added at their end. -/
theorem Handled.slots_eq_or {operation : Operation} {reply : Option (Except Fatal Reply)}
    {r : Except Fatal Table.Answer} (hslots : slots.Fits) (h : Handled slots tags operation reply r after later) :
    after.Fits ∧ (after = slots ∨ ∃ g, after = ⟨slots.handles ++ [g]⟩) := by
  cases h with
  | looked hreconciled =>
    rcases hreconciled.slots_eq_or hslots with rfl | ⟨g, -, -, hroom, rfl⟩
    · exact ⟨hslots, Or.inl rfl⟩
    · refine ⟨?_, Or.inr ⟨g, rfl⟩⟩
      simp only [SlotStore.Fits, List.length_append, List.length_singleton]
      omega
  | plain | indexOf | pointerOf | shown | unheard | asked | notAnIndex | notExisting => exact ⟨hslots, Or.inl rfl⟩

/-- A failure leaves slots and tags as they were. -/
theorem Handled.unchanged {operation : Operation} {reply : Option (Except Fatal Reply)} {f : Fatal}
    (h : Handled slots tags operation reply (.error f) after later) : after = slots ∧ later = tags := by
  generalize hr : (Except.error f : Except Fatal Table.Answer) = r at h
  cases h with
  | @looked _ _ _ _ r _ hreconciled =>
    cases r with
    | ok _ => simp [Except.map] at hr
    | error g => cases hreconciled <;> exact ⟨rfl, rfl⟩
  | @plain operation _ _ hplain =>
    subst hr
    cases operation with
    | slot i => exact ⟨rfl, (Prod.mk.inj (Option.some.inj hplain)).2.symm⟩
    | endIndex | isNull | tag | isTagged | indexAt | existingIndexAt => simp [Table.Operation.plain?] at hplain
  | indexOf | pointerOf | shown | unheard | asked | notAnIndex | notExisting => exact ⟨rfl, rfl⟩

end

/-- What no peer can break in one operation. -/
structure Guards (s : Server χ) (operation : Operation) (r : Except Fatal Table.Answer) (t : Server χ) : Prop where
  slots : t.slots = s.slots ∨ ∃ h, t.slots.toList = s.slots.toList ++ [.ref h]
  /-- Nothing but the index of a fitting reply is returned. -/
  looked : ∀ location constant i, operation = .table (.indexAt location constant) → r = .ok (.index i) →
    ∃ reported, Channel.answer s.channel (.getIndexAt location) = .ok (.ok (.reply (.index i reported))) ∧
      (i = .unknown ∧ t.slots = s.slots ∨ i < t.endIndex ∧ t.slots.get? i = some reported)
  asked : ∀ location, operation = .table (.existingIndexAt location) →
    t.slots = s.slots ∧ t.constantElements = s.constantElements
  failed : ∀ f, r = .error f → t.slots = s.slots ∧ t.constantElements = s.constantElements
  channel : t.channel = Channel.after s.channel operation.request?.toList

theorem Handled.guards {s : Server χ} (hs : s.slots.Fits) {operation : Operation} {r : Except Fatal Table.Answer}
    {slots : SlotStore} {tags : IndexSet}
    (h : Handled s.slots s.constantElements operation
      (operation.request?.map fun request => heard (Channel.answer s.channel request)) r slots tags) :
    Guards s operation r ⟨Channel.after s.channel operation.request?.toList, slots, tags⟩ where
  slots := by
    rcases (h.slots_eq_or hs).2 with rfl | ⟨g, rfl⟩
    · exact Or.inl rfl
    · exact Or.inr ⟨g, by simp [SlotStore.toList]⟩
  looked := by
    rintro location constant i rfl rfl
    generalize hr : (Except.ok (Table.Answer.index i)) = r at h
    generalize hreply : (Operation.table (.indexAt location constant)).request?.map
      (fun request => heard (Channel.answer s.channel request)) = reply at h
    cases h with
    | @looked _ _ j reported r _ hreconciled =>
      cases r with
      | error f => simp [Except.map] at hr
      | ok _ =>
        obtain rfl : i = j := Table.Answer.index.inj (Except.ok.inj hr)
        exact ⟨reported, heard_eq_ok_iff.1 (Option.some.inj hreply), hreconciled.get? hs⟩
    | plain hplain => simp [Table.Operation.plain?] at hplain
    | shown hshown => simp [Operation.shown?] at hshown
    | unheard | notAnIndex => simp at hr
  asked := by
    rintro location rfl
    generalize (Operation.table (.existingIndexAt location)).request?.map
      (fun request => heard (Channel.answer s.channel request)) = reply at h
    cases h with
    | plain hplain => simp [Table.Operation.plain?] at hplain
    | shown | unheard | asked | notExisting => exact ⟨rfl, rfl⟩
  failed := by
    rintro f rfl
    exact h.unchanged
  channel := rfl

/-! ### Runs -/

/-- The answers to a row of operations, where each failure is caught, and the server that they leave. -/
def performAll : List Operation → Server χ → List (Except Fatal Table.Answer) × Server χ
  | [], s => ([], s)
  | operation :: rest, s =>
    let o := (perform operation).run s
    let others := performAll rest o.state
    (o.result :: others.1, others.2)

/-- The server whose channel is tapped. -/
def tapped (s : Server χ) (sent : List Request) : Server (Tapped χ) := { s with channel := ⟨s.channel, sent⟩ }

theorem performAll_cons {operation : Operation} {s t : Server χ} {r : Except Fatal Table.Answer}
    (h : (perform operation).Ends s r t) (rest : List Operation) :
    performAll (operation :: rest) s = (r :: (performAll rest t).1, (performAll rest t).2) := by
  obtain ⟨rfl, rfl⟩ := h
  rfl

theorem filterMap_request?_cons (operation : Operation) (rest : List Operation) :
    (operation :: rest).filterMap Operation.request? =
      operation.request?.toList ++ rest.filterMap Operation.request? := by
  cases hrequest : operation.request? with
  | none => exact List.filterMap_cons_none hrequest
  | some request => exact List.filterMap_cons_some hrequest

theorem perform_guards {s : Server χ} (hs : s.slots.Fits) (operation : Operation) :
    Guards s operation ((perform operation).run s).result ((perform operation).run s).state := by
  obtain ⟨r, slots, tags, hends, hhandled⟩ := exists_handled hs operation
  rw [hends.1, hends.2]
  exact hhandled.guards hs

/-- A server hears the same over a channel that is tapped. -/
theorem perform_tapped {s t : Server χ} {operation : Operation} {r : Except Fatal Table.Answer} (hs : s.slots.Fits)
    (h : (perform operation).Ends s r t) (sent : List Request) :
    (perform operation).Ends (s.tapped sent) r (t.tapped (sent ++ operation.request?.toList)) := by
  obtain ⟨q, slots, tags, hends, hhandled⟩ := exists_handled hs operation
  obtain ⟨q', slots', tags', hends', hhandled'⟩ := exists_handled (s := s.tapped sent) hs operation
  obtain ⟨rfl, rfl⟩ := h.unique hends
  obtain ⟨rfl, rfl, rfl⟩ := hhandled.unique hs hhandled'
  have hchannel := Channel.after_tapped s.channel sent operation.request?.toList
  rwa [show (s.tapped sent).channel = ⟨s.channel, sent⟩ from rfl, hchannel] at hends'

/-- What no peer can break in a row of operations. -/
structure Withstands (s : Server χ) (operations : List Operation) (t : Server χ) : Prop where
  fits : t.slots.Fits
  /-- Nothing that was known is lost or changed. -/
  bindings : s.slots.handles <+: t.slots.handles
  channel : t.channel = Channel.after s.channel (operations.filterMap Operation.request?)

theorem performAll_withstands {s : Server χ} (hs : s.slots.Fits) (operations : List Operation) :
    Withstands s operations (performAll operations s).2 := by
  induction operations generalizing s with
  | nil => exact ⟨hs, List.prefix_rfl, rfl⟩
  | cons operation rest ih =>
    obtain ⟨r, slots, tags, hends, hhandled⟩ := exists_handled hs operation
    obtain ⟨hfits, hgrown⟩ := hhandled.slots_eq_or hs
    have hrest := ih (s := ⟨Channel.after s.channel operation.request?.toList, slots, tags⟩) hfits
    rw [performAll_cons hends]
    refine ⟨hrest.fits, List.IsPrefix.trans ?_ hrest.bindings, ?_⟩
    · rcases hgrown with rfl | ⟨g, rfl⟩
      · exact List.prefix_rfl
      · exact List.prefix_append _ _
    · rw [hrest.channel, ← Channel.after_append, filterMap_request?_cons]

theorem performAll_tapped {s : Server χ} (hs : s.slots.Fits) (operations : List Operation) (sent : List Request) :
    performAll operations (s.tapped sent) = ((performAll operations s).1,
      (performAll operations s).2.tapped (sent ++ operations.filterMap Operation.request?)) := by
  induction operations generalizing s sent with
  | nil => simp [performAll]
  | cons operation rest ih =>
    obtain ⟨r, slots, tags, hends, hhandled⟩ := exists_handled hs operation
    have hfits := (hhandled.slots_eq_or hs).1
    rw [performAll_cons (perform_tapped hs hends sent), performAll_cons hends, ih hfits, List.append_assoc,
      filterMap_request?_cons]

/-- What no peer can break, whatever a server was asked to do and whatever it heard. -/
structure Guarded (channel : χ) (operations : List Operation) (s : Server χ) : Prop where
  shaped : s.slots.Shaped
  guards : ∀ operation, Guards s operation ((perform operation).run s).result ((perform operation).run s).state
  /-- Whatever is done next, what is known stays known. -/
  bindings : ∀ later i slot, s.slots.get? i = some slot → (performAll later s).2.slots.get? i = some slot
  /-- The server puts one question for each lookup, in order, and no other. -/
  questions : performAll operations (ofChannel (⟨channel, []⟩ : Tapped χ)) =
    ((performAll operations (ofChannel channel)).1, s.tapped (operations.filterMap Operation.request?))

theorem guarded_of_any_peer (channel : χ) (operations : List Operation) :
    Guarded channel operations (performAll operations (ofChannel channel)).2 := by
  have hempty : (ofChannel channel).slots.Fits := SlotStore.empty_fits
  have hrun := performAll_withstands hempty operations
  refine ⟨hrun.fits.shaped, perform_guards hrun.fits, ?_, performAll_tapped hempty operations []⟩
  intro later i slot hslot
  have hlater := performAll_withstands hrun.fits later
  rw [hrun.fits.get?_of_prefix hlater.bindings, hslot]
  apply Nat.lt_of_not_le
  intro hle
  rw [hrun.fits.get?_eq_none_iff.2 hle] at hslot
  simp at hslot

end Server

end KnownObjects
