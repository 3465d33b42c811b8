import KnownObjects.Proofs.Table.Lookup
import KnownObjects.Proofs.Wire.Lengths
import Mathlib.Data.List.Forall2

/-!
# How a client answers

`Site.Served` lists how the service of a request can end. It says as much as the other side of a channel needs to know: which kind of reply answers which request, what has become of the slots, that an index is reported together with the slot that it has, and that a refusal is a short text. The fatal errors that come up in between are those of a table that reads its heap itself.

Whatever is asked of a table, its slots only grow.
-/

namespace KnownObjects

/-- The fatal errors of a table that reads its heap itself. -/
inductive Fatal.OfSite : Fatal → Prop
  | indexOutOfRange (index bound : Index) : OfSite (.indexOutOfRange index bound)
  | foreignAccess : OfSite .foreignAccess
  | tableFull : OfSite .tableFull
  | heap (cause : HeapError) : OfSite (.heap cause)

def Request.enters : Request → Bool
  | getIndex _ => true
  | getIndexAt _ => true
  | _ => false

/-- The tags after a lookup that ended with `r`. -/
def IndexSet.tagAfter (tags : IndexSet) (constant : Bool) : Except Fatal Index → IndexSet
  | .ok i => if constant then tags.tag i else tags
  | .error _ => tags

namespace Site

inductive Served (s : Site) : Request → Except Fatal Response → Site → Prop
  | refused {request : Request} {text : String} : text.utf8ByteSize ≤ 300 → Served s request (.ok (.refusal text)) s
  | entered {request : Request} {a : Address} {i : Index} {slot : Slot} {t : Site} : request.enters = true →
    Looked a s (.ok i) t → t.table.slots.get? i = some slot → Served s request (.ok (.reply (.index i slot))) t
  | found {location : Location} {i : Index} :
    i = .null ∨ i = .unknown ∨ (∃ a, s.table.find s.heap a = .ok (some i)) →
    Served s (.getExistingIndexAt location) (.ok (.reply (.existingIndex i))) s
  | pointed {i : Index} {a : Address} : Served s (.getPointer i) (.ok (.reply (.pointer a))) s
  | failed {request : Request} {f : Fatal} {t : Site} : f.OfSite → t.table.slots = s.table.slots →
    Served s request (.error f) t

/-! ### The parts of a service -/

theorem tagging_ends {lookup : Run Index} {s t : Site} {r : Except Fatal Index} (h : lookup.Ends s r t)
    (constant : Bool) :
    (tagging constant lookup).Ends s r
      { t with table := { t.table with constantElements := t.table.constantElements.tagAfter constant r } } := by
  cases r with
  | error f => exact h.bind_error
  | ok i =>
    cases constant with
    | true => exact h.bind ((Action.modify_ends _ t).bind (Action.pure_ends i _))
    | false => exact h.bind (Action.pure_ends i t)

theorem indexAt_ends {location : Location} {a : Address} {s t : Site} {r : Except Fatal Index}
    (hread : s.heap.read location = .ok a) (h : (indexOf a).Ends s r t) (constant : Bool) :
    (indexAt location constant).Ends s r
      { t with table := { t.table with constantElements := t.table.constantElements.tagAfter constant r } } := by
  have hlocal := read_ends location s
  rw [hread] at hlocal
  exact tagging_ends (hlocal.bind h) constant

theorem existingIndexAt_ends {location : Location} {a : Address} {s : Site} {r : Except Fatal Index}
    (hread : s.heap.read location = .ok a) (h : (existingIndexOf a).Ends s r s) :
    (existingIndexAt location).Ends s r s := by
  have hlocal := read_ends location s
  rw [hread] at hlocal
  exact hlocal.bind h

/-- What cannot be read has no index. -/
theorem ends_of_unread {location : Location} {s : Site} {e : HeapError} (hread : s.heap.read location = .error e) :
    (∀ constant, (indexAt location constant).Ends s (.error (.heap e)) s) ∧
      (existingIndexAt location).Ends s (.error (.heap e)) s := by
  have hlocal := read_ends location s
  rw [hread] at hlocal
  exact ⟨fun _ => hlocal.bind_error.bind_error, hlocal.bind_error⟩

theorem indexReply_ends {a : Address} {s t : Site} {i : Index} {slot : Slot} (h : (indexOf a).Ends s (.ok i) t)
    (hslot : t.table.slots.get? i = some slot) : (indexReply a).Ends s (.ok (.reply (.index i slot))) t := by
  have hget := slot_ends i t
  simp only [SlotStore.get, hslot] at hget
  exact h.bind (hget.bind (Action.pure_ends _ t))

theorem withObjectAt_ends {location : Location} {s t : Site} {a : Address} {answer : Address → Run Response}
    {r : Except Fatal Response} (hread : s.heap.read location = .ok a) (h : (answer a).Ends s r t) :
    (withObjectAt location answer).Ends s r t := by
  apply (Action.get_ends s).bind
  rw [hread]
  exact h

theorem withObjectAt_ends_refusal {location : Location} {s : Site} {e : HeapError} (hread : s.heap.read location = .error e)
    (answer : Address → Run Response) : (withObjectAt location answer).Ends s (.ok (.refusal e.message)) s := by
  apply (Action.get_ends s).bind
  rw [hread]
  exact Action.pure_ends _ s

section

variable {s t : Site} {location : Location} {a : Address} {i : Index}

theorem serve_getIndex_ends {r : Except Fatal Response} (ha : a = .null ∨ s.heap.isLive a = true)
    (h : (indexReply a).Ends s r t) : (serve (.getIndex a)).Ends s r t := by
  refine (Action.note_ends _ _ s).bind ((Action.get_ends s).bind ?_)
  rw [if_pos (by simpa [Address.isNull_iff] using ha)]
  exact h

/-- A client refuses an address at which there is no object. -/
theorem serve_getIndex_ends_refusal (ha : ¬(a = .null ∨ s.heap.isLive a = true)) :
    (serve (.getIndex a)).Ends s (.ok (.refusal (HeapError.staleAddress a).message)) s := by
  refine (Action.note_ends _ _ s).bind ((Action.get_ends s).bind ?_)
  rw [if_neg (by rwa [Bool.or_eq_true, Address.isNull_iff])]
  exact Action.pure_ends _ s

theorem serve_getIndexAt_ends {r : Except Fatal Response} (hread : s.heap.read location = .ok a)
    (h : (indexReply a).Ends s r t) : (serve (.getIndexAt location)).Ends s r t :=
  (Action.note_ends _ _ s).bind (withObjectAt_ends hread h)

theorem serve_getExistingIndexAt_ends {r : Except Fatal Index} (hread : s.heap.read location = .ok a)
    (h : (existingIndexOf a).Ends s r t) :
    (serve (.getExistingIndexAt location)).Ends s (r.map fun i => .reply (.existingIndex i)) t := by
  have hmapped := h.map fun i => Response.reply (.existingIndex i)
  rw [map_eq_pure_bind] at hmapped
  exact (Action.note_ends _ _ s).bind (withObjectAt_ends hread hmapped)

theorem serve_ends_of_unread {e : HeapError} (hread : s.heap.read location = .error e) :
    (serve (.getIndexAt location)).Ends s (.ok (.refusal e.message)) s ∧
      (serve (.getExistingIndexAt location)).Ends s (.ok (.refusal e.message)) s :=
  ⟨(Action.note_ends _ _ s).bind (withObjectAt_ends_refusal hread _),
    (Action.note_ends _ _ s).bind (withObjectAt_ends_refusal hread _)⟩

theorem serve_getPointer_ends {r : Except Fatal Address} (hrange : ¬(i = .unknown ∨ s.table.endIndex ≤ i))
    (h : (pointerOf i).Ends s r t) : (serve (.getPointer i)).Ends s (r.map fun a => .reply (.pointer a)) t := by
  refine (Action.note_ends _ _ s).bind ((Action.get_ends s).bind ?_)
  rw [if_neg (by simpa [Index.isUnknown] using hrange)]
  have hmapped := h.map fun a => Response.reply (.pointer a)
  rwa [map_eq_pure_bind] at hmapped

theorem serve_getPointer_ends_refusal (hrange : i = .unknown ∨ s.table.endIndex ≤ i) :
    (serve (.getPointer i)).Ends s (.ok (.refusal (Fatal.indexOutOfRange i s.table.endIndex).message)) s := by
  refine (Action.note_ends _ _ s).bind ((Action.get_ends s).bind ?_)
  rw [if_pos (by simpa [Index.isUnknown] using hrange)]
  exact Action.pure_ends _ s

end

theorem withObjectAt_keeps {R : Site → Site → Prop} [Std.Refl R] [Trans R R R] (location : Location)
    {answer : Address → Run Response} (h : ∀ a, (answer a).Keeps R) : (withObjectAt location answer).Keeps R := by
  refine Action.Keeps.get.bind fun s => ?_
  cases s.heap.read location with
  | ok a => exact h a
  | error e => exact .pure _

theorem checkHeap_keeps : checkHeap.Keeps (· = ·) := fun s => (checkHeap_ends s).2.symm

theorem read_keeps (location : Location) : (read location).Keeps (· = ·) := fun s => (read_ends location s).2.symm

theorem slot_keeps (i : Index) : (slot i).Keeps (· = ·) := fun s => (slot_ends i s).2.symm

theorem existingIndexOf_ends (a : Address) (s : Site) :
    (existingIndexOf a).Ends s
      (if a = .null then .ok .null
        else if s.heap.id = s.table.heapId then
          ((s.table.find s.heap a).mapError Fatal.heap).map fun found => found.getD .unknown
        else .error .foreignAccess) s := by
  simp only [existingIndexOf]
  by_cases hnull : a = .null
  · rw [if_pos (Address.isNull_iff.2 hnull), if_pos hnull]
    exact Action.pure_ends _ s
  · rw [if_neg (mt Address.isNull_iff.1 hnull), if_neg hnull]
    have hcheck := checkHeap_ends s
    by_cases hid : s.heap.id = s.table.heapId
    · rw [if_pos hid] at hcheck ⊢
      refine hcheck.bind ((Action.get_ends s).bind ?_)
      have hmap := (Action.orRaise_ends Fatal.heap (s.table.find s.heap a) s).map fun found => found.getD .unknown
      rwa [map_eq_pure_bind] at hmap
    · rw [if_neg hid] at hcheck ⊢
      exact hcheck.bind_error

theorem existingIndexOf_keeps (a : Address) : (existingIndexOf a).Keeps (· = ·) :=
  fun s => (existingIndexOf_ends a s).2.symm

theorem pointerOf_keeps (i : Index) : (pointerOf i).Keeps (· = ·) := by
  refine (slot_keeps i).bind fun slot => ?_
  cases slot with
  | null => exact .pure _
  | ref h => exact checkHeap_keeps.bind fun _ => Action.Keeps.get.bind fun _ => .orRaise _ _

theorem serve_getExistingIndexAt_keeps (location : Location) : (serve (.getExistingIndexAt location)).Keeps (· = ·) :=
  (Action.Keeps.note _ _).bind fun _ =>
    withObjectAt_keeps location fun a => (existingIndexOf_keeps a).bind fun _ => .pure _

theorem serve_getPointer_keeps (i : Index) : (serve (.getPointer i)).Keeps (· = ·) := by
  refine (Action.Keeps.note _ _).bind fun _ => Action.Keeps.get.bind fun s => ?_
  dsimp only
  split
  · exact .pure _
  · exact (pointerOf_keeps i).bind fun _ => .pure _

/-! ### Their fatal errors -/

theorem checkHeap_raises : checkHeap.Raises Fatal.OfSite := by
  intro s f t hends
  have hrun := (hends.unique (checkHeap_ends s)).1
  split at hrun
  · simp at hrun
  · obtain rfl := Except.error.inj hrun
    exact .foreignAccess

theorem slot_raises (i : Index) : (slot i).Raises Fatal.OfSite := by
  refine Action.Raises.get.bind fun s => .orRaise _ _ fun f hf => ?_
  unfold SlotStore.get at hf
  split at hf
  · simp at hf
  · obtain rfl := Except.error.inj hf
    exact .indexOutOfRange i _

theorem existingIndexOf_raises (a : Address) : (existingIndexOf a).Raises Fatal.OfSite := by
  intro s f t hends
  have hrun := (hends.unique (existingIndexOf_ends a s)).1
  split at hrun
  · simp at hrun
  split at hrun
  · cases hfind : s.table.find s.heap a with
    | ok found => simp [hfind, Except.map] at hrun
    | error e =>
      rw [hfind] at hrun
      obtain rfl := Except.error.inj hrun
      exact .heap e
  · obtain rfl := Except.error.inj hrun
    exact .foreignAccess

theorem pointerOf_raises (i : Index) : (pointerOf i).Raises Fatal.OfSite := by
  refine (slot_raises i).bind fun slot => ?_
  cases slot with
  | null => exact .pure _
  | ref h =>
    exact checkHeap_raises.bind fun _ => Action.Raises.get.bind fun _ => .orRaise _ _ fun e _ => .heap e

theorem Looked.ofSite {a : Address} {s t : Site} {f : Fatal} (h : Looked a s (.error f) t) : f.OfSite := by
  cases h with
  | foreign => exact .foreignAccess
  | unreadable | stale => exact .heap _
  | full => exact .tableFull

/-! ### The slots after a lookup -/

theorem search_mem {heap : Heap} {a : Address} {i : Index} {entries : List (Index × Handle)}
    (h : Table.search heap a entries = .ok (some i)) : ∃ handle, (i, handle) ∈ entries ∧ heap.resolve handle = .ok a := by
  induction entries with
  | nil => simp [Table.search] at h
  | cons entry entries ih =>
    unfold Table.search at h
    split at h
    · simp at h
    · rename_i b hresolve
      split at h
      · rename_i heq
        simp only [Except.ok.injEq, Option.some.injEq] at h
        exact ⟨entry.2, List.mem_cons.2 (Or.inl (by rw [← h])), heq ▸ hresolve⟩
      · obtain ⟨handle, hmem, hfound⟩ := ih h
        exact ⟨handle, List.mem_cons_of_mem entry hmem, hfound⟩

/-- A search that finds nothing has met other objects only. -/
theorem resolve_ne_of_search {heap : Heap} {a : Address} {entries : List (Index × Handle)}
    (h : Table.search heap a entries = .ok none) {entry : Index × Handle} (hmem : entry ∈ entries) :
    heap.resolve entry.2 ≠ .ok a := by
  induction entries with
  | nil => simp at hmem
  | cons first rest ih =>
    unfold Table.search at h
    split at h
    · simp at h
    · rename_i b hresolve
      split at h
      · simp at h
      · rename_i hne
        rcases List.mem_cons.1 hmem with rfl | hmem
        · rw [hresolve]
          exact fun heq => hne (Except.ok.inj heq)
        · exact ih h hmem

/-- A search that meets no dead handle gives the first one that leads to the object. What `p` says of the members of `xs` is whether the handles at their places lead there. -/
theorem search_eq_findIdx? {α : Type} {heap : Heap} {a : Address} {p : α → Bool} {handles : List Handle} {xs : List α}
    (h : List.Forall₂ (fun handle x => ∃ b, heap.resolve handle = .ok b ∧ (p x = true ↔ b = a)) handles xs) (first : Nat) :
    Table.search heap a ((handles.zipIdx first).map fun entry => (Index.ofNat entry.2, entry.1)) =
      .ok ((xs.findIdx? p).map fun k => Index.ofNat (k + first)) := by
  induction h generalizing first with
  | nil => rfl
  | @cons handle x handles xs hx _ ih =>
    obtain ⟨b, hresolve, hp⟩ := hx
    rw [List.zipIdx_cons, List.map_cons, List.findIdx?_cons]
    simp only [Table.search]
    simp only [hresolve]
    by_cases hb : b = a
    · rw [if_pos hb, if_pos (hp.2 hb), Option.map_some, Nat.zero_add]
    · rw [if_neg hb, if_neg (mt hp.1 hb), ih, Option.map_map]
      congr 2
      funext k
      show Index.ofNat (k + (first + 1)) = Index.ofNat (k + 1 + first)
      rw [Nat.add_right_comm, Nat.add_assoc]

theorem find_lt {s : Site} (hs : s.table.slots.Fits) {a : Address} {i : Index}
    (h : s.table.find s.heap a = .ok (some i)) : i.toNat < s.table.slots.size.toNat := by
  obtain ⟨handle, hmem, -⟩ := search_mem h
  obtain ⟨⟨found, k⟩, hentry, heq⟩ := List.mem_map.1 hmem
  have hk := (List.mem_zipIdx hentry).2.1
  obtain ⟨rfl, -⟩ := Prod.mk.inj heq
  have hfits : s.table.slots.handles.length + 1 < 4294967295 := hs
  rw [hs.toNat_size, Index.toNat_ofNat (by omega)]
  omega

theorem Looked.slots_of_error {a : Address} {s t : Site} {f : Fatal} (h : Looked a s (.error f) t) :
    t.table.slots = s.table.slots := by
  cases h <;> rfl

/-- A lookup that succeeds leaves the slots, or appends one whose index it gives. -/
theorem Looked.slots_of_ok {a : Address} {s t : Site} {i : Index} (hs : s.table.slots.Fits) (h : Looked a s (.ok i) t) :
    (t.table.slots = s.table.slots ∧ i.toNat < s.table.slots.size.toNat) ∨
      ∃ handle, s.table.slots.append? handle = some (i, t.table.slots) := by
  cases h with
  | null =>
    left
    rw [hs.toNat_size, Index.toNat_null]
    exact ⟨rfl, Nat.succ_pos _⟩
  | known _ hfind => exact Or.inl ⟨rfl, find_lt hs hfind⟩
  | learnt _ _ _ happend => exact Or.inr ⟨_, happend⟩

/-- A lookup adds at most one slot. -/
theorem Looked.length_le {a : Address} {s t : Site} {r : Except Fatal Index} (hs : s.table.slots.Fits)
    (h : Looked a s r t) : t.table.slots.handles.length ≤ s.table.slots.handles.length + 1 := by
  cases r with
  | error f =>
    rw [h.slots_of_error]
    exact Nat.le_succ _
  | ok i =>
    rcases h.slots_of_ok hs with ⟨hsame, -⟩ | ⟨handle, happend⟩
    · rw [hsame]
      exact Nat.le_succ _
    · obtain ⟨-, -, hgrown⟩ := hs.append?_eq_some_iff.1 happend
      simp [hgrown]

theorem Looked.le_size {a : Address} {s t : Site} {i : Index} (hs : s.table.slots.Fits) (h : Looked a s (.ok i) t) :
    i.toNat ≤ s.table.slots.size.toNat := by
  rcases h.slots_of_ok hs with ⟨-, hlt⟩ | ⟨handle, happend⟩
  · exact Nat.le_of_lt hlt
  · obtain ⟨-, rfl, -⟩ := hs.append?_eq_some_iff.1 happend
    exact Nat.le_refl _

theorem Looked.exists_slot {a : Address} {s t : Site} {i : Index} (hs : s.table.slots.Fits) (h : Looked a s (.ok i) t) :
    ∃ slot, t.table.slots.get? i = some slot := by
  rcases h.slots_of_ok hs with ⟨hslots, hi⟩ | ⟨handle, happend⟩
  · rw [hslots]
    cases hget : s.table.slots.get? i with
    | some slot => exact ⟨slot, rfl⟩
    | none =>
      have hle := hs.get?_eq_none_iff.1 hget
      omega
  · have hfits := hs.of_append? happend
    obtain ⟨-, hi, hslots⟩ := hs.append?_eq_some_iff.1 happend
    rw [hslots] at hfits ⊢
    rw [hi]
    exact ⟨.ref handle, hfits.get?_ofNat_succ (by simp)⟩

/-! ### Services -/

theorem indexReply_served {request : Request} (a : Address) {s : Site} (hrequest : request.enters = true)
    (hs : s.table.slots.Fits) : ∃ r t, (indexReply a).Ends s r t ∧ Served s request r t := by
  obtain ⟨r, t, hends, hlooked⟩ := exists_looked a s
  cases r with
  | ok i =>
    obtain ⟨slot, hslot⟩ := hlooked.exists_slot hs
    exact ⟨_, t, indexReply_ends hends hslot, .entered hrequest hlooked hslot⟩
  | error f => exact ⟨_, t, hends.bind_error, .failed hlooked.ofSite hlooked.slots_of_error⟩

theorem existingIndexOf_found {a : Address} {s t : Site} {i : Index} (h : (existingIndexOf a).Ends s (.ok i) t) :
    i = .null ∨ i = .unknown ∨ ∃ a, s.table.find s.heap a = .ok (some i) := by
  have hrun := (h.unique (existingIndexOf_ends a s)).1
  split at hrun
  · exact Or.inl (Except.ok.inj hrun)
  split at hrun
  · right
    cases hfind : s.table.find s.heap a with
    | error e => simp [hfind, Except.map] at hrun
    | ok found =>
      rw [hfind] at hrun
      obtain rfl := Except.ok.inj hrun
      cases found with
      | none => exact Or.inl rfl
      | some i => exact Or.inr ⟨a, hfind⟩
  · simp at hrun

/-- Every service ends in one of the ways listed, if the slots fit. -/
theorem exists_served (request : Request) {s : Site} (hs : s.table.slots.Fits) :
    ∃ r t, (serve request).Ends s r t ∧ Served s request r t := by
  cases request with
  | getIndex object =>
    by_cases hlive : object = .null ∨ s.heap.isLive object = true
    · obtain ⟨r, t, hends, hserved⟩ := indexReply_served object (show (Request.getIndex object).enters = true from rfl) hs
      exact ⟨r, t, serve_getIndex_ends hlive hends, hserved⟩
    · exact ⟨_, s, serve_getIndex_ends_refusal hlive, .refused (HeapError.OfRead.staleAddress object).size_le⟩
  | getIndexAt location =>
    cases hread : s.heap.read location with
    | error e => exact ⟨_, s, (serve_ends_of_unread hread).1, .refused (Heap.ofRead_of_read hread).size_le⟩
    | ok a =>
      obtain ⟨r, t, hends, hserved⟩ := indexReply_served a (show (Request.getIndexAt location).enters = true from rfl) hs
      exact ⟨r, t, serve_getIndexAt_ends hread hends, hserved⟩
  | getExistingIndexAt location =>
    cases hread : s.heap.read location with
    | error e => exact ⟨_, s, (serve_ends_of_unread hread).2, .refused (Heap.ofRead_of_read hread).size_le⟩
    | ok a =>
      have hends := (existingIndexOf a).ends s
      rw [← existingIndexOf_keeps a s] at hends
      refine ⟨_, s, serve_getExistingIndexAt_ends hread hends, ?_⟩
      cases hresult : ((existingIndexOf a).run s).result with
      | ok i =>
        rw [hresult] at hends
        exact .found (existingIndexOf_found hends)
      | error f =>
        rw [hresult] at hends
        exact .failed (existingIndexOf_raises a s f s hends) rfl
  | getPointer i =>
    by_cases hrange : i = .unknown ∨ s.table.endIndex ≤ i
    · exact ⟨_, s, serve_getPointer_ends_refusal hrange, .refused (Fatal.size_indexOutOfRange_le i s.table.endIndex)⟩
    · have hends := (pointerOf i).ends s
      rw [← pointerOf_keeps i s] at hends
      refine ⟨_, s, serve_getPointer_ends hrange hends, ?_⟩
      cases hresult : ((pointerOf i).run s).result with
      | ok a => exact .pointed
      | error f =>
        rw [hresult] at hends
        exact .failed (pointerOf_raises i s f s hends) rfl

theorem served_of_ends {request : Request} {s t : Site} {r : Except Fatal Response} (hs : s.table.slots.Fits)
    (h : (serve request).Ends s r t) : Served s request r t := by
  obtain ⟨q, u, hends, hserved⟩ := exists_served request hs
  obtain ⟨rfl, rfl⟩ := h.unique hends
  exact hserved

/-! ### Growth -/

/-- Slots that fit go on fitting, and none of them is changed or removed. -/
def Grows (s t : Site) : Prop :=
  s.table.slots.Fits → t.table.slots.Fits ∧ s.table.slots.handles <+: t.table.slots.handles

instance : Std.Refl Grows := ⟨fun _ hs => ⟨hs, List.prefix_rfl⟩⟩

instance : Trans Grows Grows Grows where
  trans hst htu hs := by
    obtain ⟨ht, hbefore⟩ := hst hs
    obtain ⟨hu, hafter⟩ := htu ht
    exact ⟨hu, hbefore.trans hafter⟩

theorem grows_of_slots_eq {s t : Site} (h : t.table.slots = s.table.slots) : Grows s t := by
  intro hs
  rw [h]
  exact ⟨hs, List.prefix_rfl⟩

theorem Looked.grows {a : Address} {s t : Site} {r : Except Fatal Index} (h : Looked a s r t) : Grows s t := by
  cases r with
  | error f => exact grows_of_slots_eq h.slots_of_error
  | ok i =>
    intro hs
    rcases h.slots_of_ok hs with ⟨hslots, -⟩ | ⟨handle, happend⟩
    · exact grows_of_slots_eq hslots hs
    · have hfits := hs.of_append? happend
      obtain ⟨-, -, hslots⟩ := hs.append?_eq_some_iff.1 happend
      exact ⟨hfits, hslots ▸ List.prefix_append _ _⟩

theorem Served.grows {request : Request} {s t : Site} {r : Except Fatal Response} (h : Served s request r t) :
    Grows s t := by
  cases h with
  | refused | found | pointed => exact grows_of_slots_eq rfl
  | entered _ hlooked => exact hlooked.grows
  | failed _ hslots => exact grows_of_slots_eq hslots

theorem tagging_grows {lookup : Run Index} (h : lookup.Keeps Grows) (constant : Bool) :
    (tagging constant lookup).Keeps Grows := by
  refine h.bind fun i => ?_
  cases constant with
  | false => exact .pure i
  | true => exact Action.Keeps.bind (fun s => grows_of_slots_eq rfl) fun _ => .pure i

theorem indexOf_grows (a : Address) : (indexOf a).Keeps Grows :=
  fun s => (looked_of_ends ((indexOf a).ends s)).grows

private theorem grows_of_eq (s t : Site) (h : s = t) : Grows s t := grows_of_slots_eq (by rw [h])

theorem perform_grows (operation : Operation) : (perform operation).Keeps Grows := by
  cases operation with
  | heap operation => exact fun s => grows_of_slots_eq rfl
  | table operation =>
    cases operation with
    | endIndex | isNull | isTagged | tag => exact fun s => grows_of_slots_eq rfl
    | slot i => exact ((slot_keeps i).mono grows_of_eq).map _
    | indexAt location constant =>
      exact (tagging_grows (((read_keeps location).mono grows_of_eq).bind indexOf_grows) constant).map _
    | existingIndexAt location => exact (((read_keeps location).bind existingIndexOf_keeps).mono grows_of_eq).map _
  | indexOf object constant => exact (tagging_grows (indexOf_grows object) constant).map _
  | existingIndexOf object => exact ((existingIndexOf_keeps object).mono grows_of_eq).map _
  | pointerOf i => exact ((pointerOf_keeps i).mono grows_of_eq).map _
  | serve request =>
    have hserve : (serve request).Keeps Grows := fun s hs => (served_of_ends hs ((serve request).ends s)).grows hs
    exact hserve.map _

end Site

end KnownObjects
