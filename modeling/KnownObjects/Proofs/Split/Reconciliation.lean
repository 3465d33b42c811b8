import KnownObjects.Dump.Document
import KnownObjects.Proofs.Split.Calls
import KnownObjects.Server

/-!
# How a server takes an answer

`Server.Reconciled` lists what a server makes of an index and a slot that the other side reports, whoever is on the other side. If it is a client whose slots the server's slots are the beginning of, and the slot is the one that the client has at the index, only three cases are left: the index is known already, it is the next one, or it is further ahead. `Server.Took` says this of a whole lookup.
-/

namespace KnownObjects

namespace Server

inductive Operation where
  | table (operation : Table.Operation)
  | indexOf (object : Address)
  | pointerOf (index : Index)
  /-- Dumps the table into a sink that takes a number of characters, or any number of them. -/
  | dump (limit : Option Nat)
  | debug
deriving DecidableEq

/-- The question that an operation puts to the client. -/
def Operation.request? : Operation → Option Request
  | .table (.indexAt location _) => some (.getIndexAt location)
  | .table (.existingIndexAt location) => some (.getExistingIndexAt location)
  | _ => none

variable {χ : Type}

/-- The slots and tags of a server. -/
def contents (s : Server χ) : SlotStore × IndexSet := (s.slots, s.constantElements)

variable [Channel χ]

def onTable : Table.Operation → Run χ Table.Answer
  | .endIndex => return .index (← get).endIndex
  | .isNull i => return .flag i.isNull
  | .slot i => .slot <$> slot i
  | .indexAt location constant => .index <$> indexAt location constant
  | .existingIndexAt location => .index <$> existingIndexAt location
  | .tag i => do
    tag i
    return .done
  | .isTagged i => return .flag ((← get).isTagged i)

def perform : Operation → Run χ Table.Answer
  | .table operation => onTable operation
  | .indexOf object => .index <$> indexOf object
  | .pointerOf i => .pointer <$> pointerOf i
  | .dump limit => do
    let printed := (Dump.Document.server (← get).endIndex).print limit
    .noteAll printed.log
    return .printed printed.text printed.failed
  | .debug => return .printed (← get).debugText false

/-- What is printed of a table with some slots, if the operation prints. -/
def Operation.shown? (slots : SlotStore) : Operation → Option Table.Answer
  | .dump limit =>
    let printed := (Dump.Document.server slots.size).print limit
    some (.printed printed.text printed.failed)
  | .debug => some (.printed (Server.mk () slots .empty).debugText false)
  | _ => none

/-- What a server hears of the answer to a request: a reply, or the error that gives the compilation up. -/
def heard : Except Fatal (Except ChannelError Response) → Except Fatal Reply
  | .ok (.ok (.reply reply)) => .ok reply
  | .ok (.ok (.refusal text)) => .error (.clientRejected text)
  | .ok (.error e) => .error (.channel e)
  | .error f => .error f

/-- An error of the channel is heard like one that the client raised. -/
theorem heard_taken (r : Except Fatal (Except ChannelError Response)) : heard ((Route.taken r).map .ok) = heard r := by
  rcases r with f | e | response <;> rfl

theorem ask_ends {s : Server χ} {request : Request} {r : Except Fatal (Except ChannelError Response)} {d : χ}
    (h : (Channel.call request : Action Fatal χ _).Ends s.channel r d) :
    (ask request).Ends s (heard r) { s with channel := d } := by
  have hcall := Action.Ends.focus Server.channel (fun channel (s : Server χ) => { s with channel }) h
  cases r with
  | error f => exact hcall.bind_error
  | ok answer =>
    apply hcall.bind
    have hanswer := Action.orRaise_ends Fatal.channel answer { s with channel := d }
    cases answer with
    | error e => exact hanswer.bind_error
    | ok response =>
      apply hanswer.bind
      cases response with
      | reply reply => exact Action.pure_ends _ _
      | refusal text => exact Action.raise_ends _ _

/-! ### Reconciliation -/

inductive Reconciled (slots : SlotStore) (i : Index) (reported : Slot) : Except Fatal Unit → SlotStore → Prop
  | unknown : i = .unknown → Reconciled slots i reported (.ok ()) slots
  | ahead : i ≠ .unknown → slots.size.toNat < i.toNat →
    Reconciled slots i reported (.error (.indexAhead i slots.size)) slots
  | blank : i = slots.size → reported = .null → Reconciled slots i reported (.error (.handleMismatch i .null .null)) slots
  | full {h : Handle} : i = slots.size → reported = .ref h → slots.append? h = none →
    Reconciled slots i reported (.error .tableFull) slots
  | learnt {h : Handle} {after : SlotStore} : i = slots.size → reported = .ref h →
    slots.append? h = some (i, after) → Reconciled slots i reported (.ok ()) after
  | agreed : i.toNat < slots.size.toNat → slots.get? i = some reported → Reconciled slots i reported (.ok ()) slots
  | contradicted {known : Slot} : i.toNat < slots.size.toNat → slots.get? i = some known → known ≠ reported →
    Reconciled slots i reported (.error (.handleMismatch i known reported)) slots

omit [Channel χ] in
theorem slot_ends (i : Index) (s : Server χ) : (slot i).Ends s ((s.slots.get i).mapError id) s :=
  (Action.get_ends s).bind (Action.orRaise_ends _ _ s)

omit [Channel χ] in
theorem indexOf_ends (object : Address) (s : Server χ) :
    (indexOf object).Ends s (if object.isNull then .ok .null else .error (.forbiddenOnServer "index_of")) s := by
  simp only [indexOf]
  split
  · exact Action.pure_ends _ s
  · exact Action.raise_ends _ s

omit [Channel χ] in
theorem pointerOf_ends (i : Index) (s : Server χ) :
    (pointerOf i).Ends s (if i.isNull then .ok .null else .error (.forbiddenOnServer "pointer_of")) s := by
  simp only [pointerOf]
  split
  · exact Action.pure_ends _ s
  · exact Action.raise_ends _ s

omit [Channel χ] in
/-- The slot after the last one is learnt, if it holds a handle and there is room. -/
theorem exists_reconciled_of_eq {s : Server χ} (hs : s.slots.Fits) {i : Index} (hunknown : i.isUnknown = false)
    (hnext : i = s.slots.size) (reported : Slot) :
    ∃ r slots, (reconcile i reported).Ends s r { s with slots } ∧ Reconciled s.slots i reported r slots := by
  have hnear : ¬s.slots.size < i := fun hlt => Nat.lt_irrefl _ (hnext ▸ hlt)
  simp only [reconcile]
  rw [if_neg (by simp [hunknown])]
  cases reported with
  | null =>
    refine ⟨_, s.slots, (Action.get_ends s).bind ?_, .blank hnext rfl⟩
    rw [if_neg hnear, if_pos hnext]
    exact Action.raise_ends _ s
  | ref h =>
    have happends := Action.orRaise_ends id (s.slots.append h) s
    cases happend : s.slots.append? h with
    | none =>
      refine ⟨_, s.slots, (Action.get_ends s).bind ?_, .full hnext rfl happend⟩
      rw [if_neg hnear, if_pos hnext]
      simp only [SlotStore.append, happend] at happends ⊢
      exact happends.bind_error
    | some added =>
      obtain ⟨j, after⟩ := added
      obtain ⟨-, hj, -⟩ := hs.append?_eq_some_iff.1 happend
      refine ⟨_, after, (Action.get_ends s).bind ?_, .learnt hnext rfl (hnext.trans hj.symm ▸ happend)⟩
      rw [if_neg hnear, if_pos hnext]
      simp only [SlotStore.append, happend] at happends ⊢
      exact happends.bind ((Action.modify_ends _ s).bind (Action.note_ends _ _ _))

omit [Channel χ] in
/-- A slot that is there already must agree. -/
theorem exists_reconciled_of_lt {s : Server χ} (hs : s.slots.Fits) {i : Index} (hunknown : i.isUnknown = false)
    (hlt : i.toNat < s.slots.size.toNat) (reported : Slot) :
    ∃ r slots, (reconcile i reported).Ends s r { s with slots } ∧ Reconciled s.slots i reported r slots := by
  have hnear : ¬s.slots.size < i := Nat.lt_asymm hlt
  have hknown : i ≠ s.slots.size := by
    rintro rfl
    exact Nat.lt_irrefl _ hlt
  simp only [reconcile]
  rw [if_neg (by simp [hunknown])]
  have hget := slot_ends i s
  cases hslot : s.slots.get? i with
  | none =>
    have hge := hs.get?_eq_none_iff.1 hslot
    omega
  | some known =>
    simp only [SlotStore.get, hslot] at hget
    by_cases hagree : known = reported
    · refine ⟨_, s.slots, (Action.get_ends s).bind ?_, .agreed hlt (hagree ▸ hslot)⟩
      rw [if_neg hnear, if_neg hknown]
      apply hget.bind
      rw [if_pos hagree]
      exact Action.pure_ends () s
    · refine ⟨_, s.slots, (Action.get_ends s).bind ?_, .contradicted hlt hslot hagree⟩
      rw [if_neg hnear, if_neg hknown]
      apply hget.bind
      rw [if_neg hagree]
      exact Action.raise_ends _ s

omit [Channel χ] in
theorem exists_reconciled {s : Server χ} (hs : s.slots.Fits) (i : Index) (reported : Slot) :
    ∃ r slots, (reconcile i reported).Ends s r { s with slots } ∧ Reconciled s.slots i reported r slots := by
  cases hunknown : i.isUnknown with
  | true =>
    refine ⟨_, s.slots, ?_, .unknown (by simpa [Index.isUnknown] using hunknown)⟩
    simp only [reconcile]
    rw [if_pos hunknown]
    exact Action.pure_ends () s
  | false =>
    rcases Nat.lt_trichotomy s.slots.size.toNat i.toNat with hahead | heq | hlt
    · refine ⟨_, s.slots, ?_, .ahead (by simpa [Index.isUnknown] using hunknown) hahead⟩
      simp only [reconcile]
      rw [if_neg (by simp [hunknown])]
      apply (Action.get_ends s).bind
      rw [if_pos (show s.slots.size < i from hahead)]
      exact Action.raise_ends _ s
    · exact exists_reconciled_of_eq hs hunknown (Index.ext_toNat heq.symm) reported
    · exact exists_reconciled_of_lt hs hunknown hlt reported

/-! ### Lookups -/

theorem lookup_ends_error {s t : Server χ} {location : Location} {f : Fatal}
    (h : (ask (.getIndexAt location)).Ends s (.error f) t) : (lookup location).Ends s (.error f) t :=
  h.bind_error

theorem lookup_ends {s t : Server χ} {location : Location} {i : Index} {reported : Slot} {r : Except Fatal Unit}
    {slots : SlotStore} (h : (ask (.getIndexAt location)).Ends s (.ok (.index i reported)) t)
    (hrest : (reconcile i reported).Ends t r { t with slots }) :
    (lookup location).Ends s (r.map fun _ => i) { t with slots } := by
  apply h.bind
  cases r with
  | error f => exact hrest.bind_error
  | ok _ => exact hrest.bind (Action.pure_ends i _)

theorem indexAt_ends {s t : Server χ} {location : Location} {r : Except Fatal Index}
    (h : (lookup location).Ends s r t) (constant : Bool) :
    (indexAt location constant).Ends s r { t with constantElements := t.constantElements.tagAfter constant r } := by
  cases r with
  | error f => exact h.bind_error
  | ok i =>
    cases constant with
    | false => exact h.bind (Action.pure_ends i t)
    | true => exact h.bind ((Action.modify_ends _ t).bind (Action.pure_ends i _))

theorem onTable_ends_of_plain {operation : Table.Operation} {s : Server χ} {r : Except Fatal Table.Answer}
    {tags : IndexSet} (h : operation.plain? s.slots s.constantElements = some (r, tags)) :
    (onTable operation).Ends s r { s with constantElements := tags } := by
  cases operation with
  | slot i =>
    have hends := (slot_ends i s).map Table.Answer.slot
    obtain ⟨rfl, rfl⟩ := Prod.mk.inj (Option.some.inj h)
    cases hget : s.slots.get i with
    | ok slot =>
      rw [hget] at hends
      exact hends
    | error f =>
      rw [hget] at hends
      exact hends
  | endIndex | isNull | tag | isTagged =>
    obtain ⟨rfl, rfl⟩ := Prod.mk.inj (Option.some.inj h)
    exact ⟨rfl, rfl⟩
  | indexAt | existingIndexAt => simp [Table.Operation.plain?] at h

/-- Printing reads nothing but the number of slots. -/
theorem perform_ends_of_shown {operation : Operation} {s : Server χ} {answer : Table.Answer}
    (h : operation.shown? s.slots = some answer) : (perform operation).Ends s (.ok answer) s := by
  cases operation with
  | dump limit =>
    obtain rfl := Option.some.inj h
    exact ⟨rfl, rfl⟩
  | debug =>
    obtain rfl := Option.some.inj h
    exact ⟨rfl, rfl⟩
  | table | indexOf | pointerOf => simp [Operation.shown?] at h

theorem request?_eq_none_of_shown {operation : Operation} {slots : SlotStore} {answer : Table.Answer}
    (h : operation.shown? slots = some answer) : operation.request? = none := by
  cases operation with
  | dump | debug => rfl
  | table | indexOf | pointerOf => simp [Operation.shown?] at h

theorem request?_eq_none_of_plain {operation : Table.Operation} {slots : SlotStore} {tags : IndexSet}
    {r : Except Fatal Table.Answer × IndexSet} (h : operation.plain? slots tags = some r) :
    (Operation.table operation).request? = none := by
  cases operation with
  | indexAt | existingIndexAt => simp [Table.Operation.plain?] at h
  | endIndex | isNull | slot | tag | isTagged => rfl

/-- What becomes of a lookup that only asks when the client answers it in a given way. -/
inductive Relayed : Except Fatal Response → Except Fatal Index → Prop
  | failed {f : Fatal} : Relayed (.error f) (.error f)
  | rejected {text : String} : Relayed (.ok (.refusal text)) (.error (.clientRejected text))
  | found {i : Index} : Relayed (.ok (.reply (.existingIndex i))) (.ok i)

/-- What becomes of a lookup when the client answers it in a given way. -/
inductive Took (slots : SlotStore) : Except Fatal Response → Except Fatal Index → SlotStore → Prop
  | failed {f : Fatal} : Took slots (.error f) (.error f) slots
  | rejected {text : String} : Took slots (.ok (.refusal text)) (.error (.clientRejected text)) slots
  | known {i : Index} {slot : Slot} : i.toNat < slots.size.toNat → slots.get? i = some slot →
    Took slots (.ok (.reply (.index i slot))) (.ok i) slots
  | learnt {i : Index} {h : Handle} {after : SlotStore} : slots.append? h = some (i, after) →
    Took slots (.ok (.reply (.index i (.ref h)))) (.ok i) after
  | ahead {i : Index} {slot : Slot} : slots.size.toNat < i.toNat →
    Took slots (.ok (.reply (.index i slot))) (.error (.indexAhead i slots.size)) slots

/-- A server that has seen the beginning of the client's slots accepts what the client reports, unless it is ahead. -/
theorem Reconciled.took {slots client after : SlotStore} {i : Index} {reported : Slot} {r : Except Fatal Unit}
    (hclient : client.Fits) (hinitial : slots.handles <+: client.handles) (hreported : client.get? i = some reported)
    (h : Reconciled slots i reported r after) :
    Took slots (.ok (.reply (.index i reported))) (r.map fun _ => i) after := by
  have hfits := hclient.of_prefix hinitial
  have hlt := hclient.lt_of_get? hreported
  -- Where the server's slots end, the client has one more: it holds a handle, and there is room for it.
  have hnext : i = slots.size → ∃ h, reported = .ref h ∧ ∃ after, slots.append? h = some (i, after) := by
    rintro rfl
    rw [hfits.toNat_size, hclient.toNat_size] at hlt
    have hplace : slots.handles.length < client.handles.length := by omega
    have hget := hclient.get?_ofNat_succ (List.getElem?_eq_getElem hplace)
    refine ⟨_, Option.some.inj (hreported.symm.trans hget), _, hfits.append?_eq_some_iff.2 ⟨?_, rfl, rfl⟩⟩
    have hbound : client.handles.length + 1 < 4294967295 := hclient
    omega
  cases h with
  | unknown hunknown =>
    subst hunknown
    have hbound : client.handles.length + 1 < 4294967295 := hclient
    rw [hclient.toNat_size, Index.toNat_unknown] at hlt
    omega
  | ahead _ hahead => exact .ahead hahead
  | blank hi hnull =>
    obtain ⟨h, href, -⟩ := hnext hi
    rw [hnull] at href
    simp at href
  | full hi href happend =>
    obtain ⟨h, href', after, happend'⟩ := hnext hi
    obtain rfl := Slot.ref.inj (href.symm.trans href')
    rw [happend] at happend'
    simp at happend'
  | learnt _ href happend =>
    subst href
    exact .learnt happend
  | agreed hknown hget => exact .known hknown hget
  | contradicted hknown hget hne =>
    have hsame := hfits.get?_of_prefix hinitial hknown
    rw [hreported, hget] at hsame
    exact absurd (Option.some.inj hsame).symm hne

theorem Took.initial {slots client after : SlotStore} {q : Except Fatal Response} {r : Except Fatal Index}
    (hclient : client.Fits) (hinitial : slots.handles <+: client.handles)
    (hreported : ∀ i slot, q = .ok (.reply (.index i slot)) → client.get? i = some slot)
    (h : Took slots q r after) : after.handles <+: client.handles := by
  cases h with
  | failed | rejected | known | ahead => exact hinitial
  | @learnt i h after happend =>
    have hfits := hclient.of_prefix hinitial
    obtain ⟨-, rfl, rfl⟩ := hfits.append?_eq_some_iff.1 happend
    obtain ⟨rest, hrest⟩ := hinitial
    have hget := hreported _ _ rfl
    cases rest with
    | nil =>
      rw [List.append_nil] at hrest
      have hnone : client.get? slots.size = none := by
        refine hclient.get?_eq_none_iff.2 (Nat.le_of_eq ?_)
        rw [hclient.toNat_size, hfits.toNat_size, hrest]
      rw [hnone] at hget
      simp at hget
    | cons g rest =>
      have hplace : client.handles[slots.handles.length]? = some g := by rw [← hrest]; simp
      have hslot := hclient.get?_ofNat_succ hplace
      obtain rfl := Slot.ref.inj (Option.some.inj (hget.symm.trans hslot))
      exact ⟨rest, by rw [← hrest]; simp⟩

end Server

end KnownObjects
