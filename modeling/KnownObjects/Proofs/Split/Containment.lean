import KnownObjects.Proofs.Split.Severed
import Mathlib.Data.List.Induction

/-!
# What a cut leaves behind

A script that a server and its client go through over pipes that may be cut is compared with the same script over pipes that take everything. Up to the first severed step the two cannot be told apart: `Wired.Alike`. From then on the first server stays `Wired.Behind` the second. It answers what needs no client from the slots and tags that it has. They are right as far as they go, so only the operations that ask how far they go can answer differently.

`Wired.Contained` puts together what this means for both sides. The client never has more than one slot for itself, and it made that one for the request whose response was cut.
-/

namespace KnownObjects

open Wire

namespace Wired

/-! ### Two runs -/

/-- The pipes take everything as long as the service goes on. -/
def Unlimited (s : Wired) : Prop :=
  s.channel.peer.ended = false → s.channel.sink.capacity = none ∧ s.channel.peer.replies.capacity = none

/-- Nothing but the pipes is different. -/
structure Alike (s u : Wired) : Prop where
  contents : s.contents = u.contents
  client : s.client = u.client
  ended : s.channel.peer.ended = u.channel.peer.ended
  left : s.Settled
  right : u.Settled

/-- The sides of the first have parted, and the second has at least the slots of the first. -/
structure Behind (s u : Wired) : Prop where
  parted : s.Parted
  fits : u.slots.Fits
  initial : s.slots.handles <+: u.slots.handles

section

variable {s u : Wired}

theorem Unlimited.not_severs (hs : s.Unlimited) (step : Step) : ¬s.Severs step := by
  cases step with
  | heap => exact id
  | server operation =>
    rintro ⟨hwaiting, request, -, hlacks | ⟨response, t, -, hlacks⟩⟩
    · exact Sink.not_lacks_of_unlimited (hs hwaiting).1 _ hlacks
    · exact Sink.not_lacks_of_unlimited (hs hwaiting).2 _ hlacks

theorem Unlimited.perform (hs : s.Unlimited) (hsettled : s.Settled) (step : Step) : (s.perform step).2.Unlimited := by
  rcases hsettled with hjoined | hparted
  · cases step with
    | heap => exact hs
    | server operation =>
      have hperforms := hjoined.performs operation
      generalize s.perform (.server operation) = o at hperforms ⊢
      obtain ⟨r, u⟩ := o
      cases hperforms with
      | plain | answered => exact fun _ => hs hjoined.waiting
      | failed _ _ _ _ hended | severed _ _ _ _ _ hended => exact fun hwaiting => by simp [hended] at hwaiting
  · intro hwaiting
    simp [(hparted.perform step).1.ended] at hwaiting

/-- Where neither pipe cuts anything, what happens depends on the server and the client alone. -/
theorem Performs.alike {s' u' : Wired} {operation : Server.Operation} {r q : Except Fatal Table.Answer}
    (halike : s.Alike u) (hs : ¬s.Severs (.server operation)) (hu : ¬u.Severs (.server operation))
    (h : Performs s operation r s') (h' : Performs u operation q u') :
    r = q ∧ s'.contents = u'.contents ∧ s'.client = u'.client ∧ s'.channel.peer.ended = u'.channel.peer.ended := by
  have hfits := halike.left.fits
  have hclient := halike.client
  obtain ⟨hslots, htags⟩ := Prod.mk.inj halike.contents
  cases h with
  | plain hnone hhandled =>
    cases h' with
    | plain _ hhandled' =>
      rw [← hslots, ← htags] at hhandled'
      obtain ⟨rfl, -, rfl⟩ := hhandled.unique hfits hhandled'
      exact ⟨rfl, Prod.ext hslots rfl, hclient, halike.ended⟩
    | answered hrequest | failed hrequest | severed hrequest => simp [hnone] at hrequest
  | answered hrequest _ hserve hhandled =>
    cases h' with
    | plain hnone => simp [hnone] at hrequest
    | answered hrequest' _ hserve' hhandled' =>
      obtain rfl := Option.some.inj (hrequest.symm.trans hrequest')
      obtain ⟨hresponse, rfl⟩ := (hclient ▸ hserve).unique hserve'
      obtain rfl := Except.ok.inj hresponse
      rw [← hslots, ← htags] at hhandled'
      obtain ⟨rfl, rfl, rfl⟩ := hhandled.unique hfits hhandled'
      exact ⟨rfl, rfl, rfl, rfl⟩
    | failed hrequest' _ hserve' =>
      obtain rfl := Option.some.inj (hrequest.symm.trans hrequest')
      exact absurd ((hclient ▸ hserve).unique hserve').1 (by simp)
    | severed _ hsevers => exact absurd hsevers hu
  | failed hrequest _ hserve _ hended ht =>
    cases h' with
    | plain hnone => simp [hnone] at hrequest
    | answered hrequest' _ hserve' =>
      obtain rfl := Option.some.inj (hrequest.symm.trans hrequest')
      exact absurd ((hclient ▸ hserve).unique hserve').1 (by simp)
    | failed hrequest' _ hserve' _ hended' ht' =>
      obtain rfl := Option.some.inj (hrequest.symm.trans hrequest')
      obtain ⟨-, rfl⟩ := (hclient ▸ hserve).unique hserve'
      exact ⟨rfl, halike.contents, ht.trans ht'.symm, hended.trans hended'.symm⟩
    | severed _ hsevers => exact absurd hsevers hu
  | severed _ hsevers => exact absurd hsevers hs

theorem Parted.perform_alike (halike : s.Alike u) (hs : s.Parted) (hu : u.Parted) (operation : Server.Operation) :
    (s.perform (.server operation)).1 = (u.perform (.server operation)).1 ∧
      (s.perform (.server operation)).2.contents = (u.perform (.server operation)).2.contents := by
  obtain ⟨hslots, htags⟩ := Prod.mk.inj halike.contents
  obtain ⟨r, tags, hperform, hhandled⟩ := hs.performs operation
  obtain ⟨q, tags', hperform', hhandled'⟩ := hu.performs operation
  rw [← hslots, ← htags] at hhandled'
  obtain ⟨rfl, -, rfl⟩ := hhandled.unique hs.fits hhandled'
  rw [hperform, hperform']
  exact ⟨rfl, Prod.ext hslots rfl⟩

theorem Alike.perform (h : s.Alike u) {step : Step} (hs : ¬s.Severs step) (hu : ¬u.Severs step) :
    (s.perform step).1 = (u.perform step).1 ∧ (s.perform step).2.Alike (u.perform step).2 := by
  have hleft := h.left.perform step
  have hright := h.right.perform step
  cases step with
  | heap operation =>
    have hrun := congrArg (Site.perform (.heap operation)).run h.client
    exact ⟨congrArg Outcome.result hrun, h.contents, congrArg Outcome.state hrun, h.ended, hleft, hright⟩
  | server operation =>
    rcases h.left with hs' | hs'
    · have hu' : u.Joined := h.right.resolve_right fun hu' => absurd (hu'.ended.symm.trans (h.ended ▸ hs'.waiting)) (by decide)
      obtain ⟨hanswer, hcontents, hclient, hended⟩ := (hs'.performs operation).alike h hs hu (hu'.performs operation)
      exact ⟨hanswer, hcontents, hclient, hended, hleft, hright⟩
    · have hu' : u.Parted := h.right.resolve_left fun hu' => absurd (hs'.ended.symm.trans (h.ended ▸ hu'.waiting)) (by decide)
      obtain ⟨hanswer, hcontents⟩ := hs'.perform_alike h hu' operation
      have hpeer := hs'.peer_perform operation
      have hpeer' := hu'.peer_perform operation
      refine ⟨hanswer, hcontents, ?_, ?_, hleft, hright⟩
      · exact (congrArg FarEnd.client hpeer).trans (h.client.trans (congrArg FarEnd.client hpeer').symm)
      · exact (congrArg FarEnd.ended hpeer).trans (h.ended.trans (congrArg FarEnd.ended hpeer').symm)

theorem Alike.behind (h : s.Alike u) {step : Step} (hsevers : s.Severs step) :
    Behind (s.perform step).2 (u.perform step).2 := by
  rcases h.left with hs | hs
  · cases step with
    | heap => exact hsevers.elim
    | server operation =>
      obtain ⟨hparted, hcontents, -⟩ := hs.severed hsevers
      obtain ⟨hfits, hgrown⟩ := grows_perform h.right.fits (.server operation)
      have hslots : (s.perform (.server operation)).2.slots = u.slots :=
        (congrArg Prod.fst hcontents).trans (congrArg Prod.fst h.contents)
      exact ⟨hparted, hfits, hslots ▸ hgrown⟩
  · exact absurd hsevers (hs.not_severs step)

/-- What completes is not severed, so it completes with whole pipes as well. -/
theorem Alike.completes (h : s.Alike u) (hu : u.Unlimited) {operation : Server.Operation} {a : Table.Answer}
    (hcompletes : (s.perform (.server operation)).1 = .ok a) : (u.perform (.server operation)).1 = .ok a := by
  have hwhole : ¬s.Severs (.server operation) := by
    intro hsevers
    have hjoined := h.left.resolve_right fun hparted => hparted.not_severs _ hsevers
    obtain ⟨-, -, e, hfails, -⟩ := hjoined.severed hsevers
    simp [hcompletes] at hfails
  exact (h.perform hwhole (hu.not_severs _)).1.symm.trans hcompletes

theorem Behind.completes (h : s.Behind u) {operation : Server.Operation} {a : Table.Answer}
    (hcompletes : (s.perform (.server operation)).1 = .ok a) :
    (u.perform (.server operation)).1 = .ok a ∨ operation.reports = true := by
  have hnone := h.parted.asks_nobody hcompletes
  obtain ⟨r, slots, tags, hperform, hhandled⟩ := exists_perform h.parted.fits operation
  obtain ⟨q, slots', tags', hperform', hhandled'⟩ := exists_perform h.fits operation
  rw [hperform] at hcompletes
  obtain rfl : r = .ok a := hcompletes
  rw [hnone] at hhandled hhandled'
  rw [hperform']
  exact hhandled.completes h.parted.fits h.initial hhandled'

theorem Behind.perform (h : Behind s u) (step : Step) : Behind (s.perform step).2 (u.perform step).2 := by
  obtain ⟨hparted, hslots, -⟩ := h.parted.perform step
  obtain ⟨hfits, hgrown⟩ := grows_perform h.fits step
  exact ⟨hparted, hfits, hslots ▸ h.initial.trans hgrown⟩

end

/-! ### Scripts -/

section

variable (heap : Heap) (requestCut replyCut : Option Nat) (script : List Step)

theorem start_joined : (start heap requestCut replyCut).Joined := ⟨rfl, rfl, rfl, SlotStore.empty_fits⟩

theorem start_alike : (start heap requestCut replyCut).Alike (start heap none none) :=
  ⟨rfl, rfl, rfl, Or.inl (start_joined _ _ _), Or.inl (start_joined _ _ _)⟩

theorem settled_after : ((start heap requestCut replyCut).after script).Settled := by
  induction script using List.reverseRecOn with
  | nil => exact Or.inl (start_joined _ _ _)
  | append_singleton script step ih =>
    rw [after_append_singleton]
    exact ih.perform step

theorem unlimited_after : ((start heap none none).after script).Unlimited := by
  induction script using List.reverseRecOn with
  | nil => exact fun _ => ⟨rfl, rfl⟩
  | append_singleton script step ih =>
    rw [after_append_singleton]
    exact ih.perform (settled_after _ _ _ script) step

/-- Up to the first severed step the run is like the one whose pipes take everything, and then it is behind it. -/
theorem alike_or_behind : ¬(start heap requestCut replyCut).Affected script ∧
      ((start heap requestCut replyCut).after script).Alike ((start heap none none).after script) ∨
    (start heap requestCut replyCut).Affected script ∧
      ((start heap requestCut replyCut).after script).Behind ((start heap none none).after script) := by
  induction script using List.reverseRecOn with
  | nil =>
    refine Or.inl ⟨?_, start_alike _ _ _⟩
    rintro ⟨before, step, rest, hscript, -⟩
    simp at hscript
  | append_singleton script step ih =>
    rw [after_append_singleton, after_append_singleton, affected_append_singleton_iff]
    rcases ih with ⟨hwhole, halike⟩ | ⟨haffected, hbehind⟩
    · by_cases hsevers : ((start heap requestCut replyCut).after script).Severs step
      · exact Or.inr ⟨Or.inr hsevers, halike.behind hsevers⟩
      · have hother := (unlimited_after heap script).not_severs step
        exact Or.inl ⟨not_or.2 ⟨hwhole, hsevers⟩, (halike.perform hsevers hother).2⟩
    · exact Or.inr ⟨Or.inl haffected, hbehind.perform step⟩

theorem parted_of_affected {heap : Heap} {requestCut replyCut : Option Nat} {script : List Step}
    (h : (start heap requestCut replyCut).Affected script) :
    ((start heap requestCut replyCut).after script).Parted := by
  rcases alike_or_behind heap requestCut replyCut script with ⟨hwhole, -⟩ | ⟨-, hbehind⟩
  · exact absurd h hwhole
  · exact hbehind.parted

/-- The slot that the client may have for itself comes from a request whose response was cut. -/
theorem matched_or_stranded : ((start heap requestCut replyCut).after script).slots =
      ((start heap requestCut replyCut).after script).client.table.slots ∨
    ∃ before operation rest t, script = before ++ .server operation :: rest ∧
      ((start heap requestCut replyCut).after before).Strands operation t ∧
      ((start heap requestCut replyCut).after script).slots = ((start heap requestCut replyCut).after before).slots ∧
      ((start heap requestCut replyCut).after script).client.table.slots = t.table.slots := by
  induction script using List.reverseRecOn with
  | nil => exact Or.inl rfl
  | append_singleton script step ih =>
    rw [after_append_singleton]
    rcases settled_after heap requestCut replyCut script with hjoined | hparted
    · rcases hjoined.strands step with hmatched | ⟨operation, rfl, hstrands, hslots⟩
      · exact Or.inl hmatched
      · exact Or.inr ⟨script, operation, [], _, rfl, hstrands, hslots, rfl⟩
    · obtain ⟨-, hslots, hclient⟩ := hparted.perform step
      rw [hslots, hclient]
      rcases ih with hmatched | ⟨before, operation, rest, t, rfl, hstranded⟩
      · exact Or.inl hmatched
      · exact Or.inr ⟨before, operation, rest ++ [step], t, by simp, hstranded⟩

end

/-- The same server and client, with pipes that take everything from now on. -/
def unlimited (s : Wired) : Wired :=
  { s with channel := { s.channel with
      sink := { s.channel.sink with capacity := none }
      peer := { s.channel.peer with replies := { s.channel.peer.replies with capacity := none } } } }

theorem Settled.perform_unlimited {s : Wired} (hs : s.Settled) {operation : Server.Operation} {a : Table.Answer}
    (h : (s.perform (.server operation)).1 = .ok a) : (s.unlimited.perform (.server operation)).1 = .ok a := by
  rcases hs with hjoined | hparted
  · have halike : s.Alike s.unlimited :=
      ⟨rfl, rfl, rfl, Or.inl hjoined, Or.inl ⟨hjoined.source, hjoined.waiting, hjoined.slots, hjoined.fits⟩⟩
    exact halike.completes (fun _ => ⟨rfl, rfl⟩) h
  · have hnone := hparted.asks_nobody h
    exact (perform_eq_of_contents (u := s.unlimited) hparted.fits rfl hnone).symm.trans h

/-- What becomes of a server and its client that go through a script over pipes which may be cut, compared with the same script over pipes that take everything. -/
structure Contained (cut whole : Wired) (script : List Step) : Prop where
  near : (cut.after script).slots.Near (cut.after script).client.table.slots
  /-- Also between the service of the next request and its response. -/
  amid : ∀ operation,
    (cut.after script).slots.Near ((cut.after script).perform (.server operation)).2.client.table.slots
  /-- The client's last slot, if the server does not have it, was made for a request whose response was cut. -/
  stranded : (cut.after script).slots ≠ (cut.after script).client.table.slots →
    ∃ before operation rest t, script = before ++ .server operation :: rest ∧
      (cut.after before).Strands operation t ∧ (cut.after script).slots = (cut.after before).slots ∧
      (cut.after script).client.table.slots = t.table.slots
  /-- Before the first cut message there is no difference. -/
  same : ¬cut.Affected script → (cut.after script).contents = (whole.after script).contents ∧
    (cut.after script).client = (whole.after script).client ∧
    ∀ step, ¬cut.Affected (script ++ [step]) → ((cut.after script).perform step).1 = ((whole.after script).perform step).1
  completes : ∀ operation a, ((cut.after script).perform (.server operation)).1 = .ok a →
    ((whole.after script).perform (.server operation)).1 = .ok a ∨ cut.Affected script ∧ operation.reports = true
  /-- Nothing that completes would be answered differently if the pipes were whole from there on. -/
  onward : ∀ operation a, ((cut.after script).perform (.server operation)).1 = .ok a →
    ((cut.after script).unlimited.perform (.server operation)).1 = .ok a
  /-- The lookup that is cut and every later one give up the compilation and leave slots and tags. -/
  fails : ∀ operation, operation.request?.isSome = true → cut.Affected (script ++ [.server operation]) →
    (∃ e : ChannelError, ((cut.after script).perform (.server operation)).1 = .error (.channel e) ∧ e.isBreak = true) ∧
    ((cut.after script).perform (.server operation)).2.contents = (cut.after script).contents
  kept : cut.Affected script → ∀ step, ((cut.after script).perform step).2.slots = (cut.after script).slots ∧
    ((cut.after script).perform step).2.client.table.slots = (cut.after script).client.table.slots

theorem contained_of_cut_pipes (heap : Heap) (requestCut replyCut : Option Nat) (script : List Step) :
    Contained (start heap requestCut replyCut) (start heap none none) script where
  near := (settled_after heap requestCut replyCut script).near
  amid := (settled_after heap requestCut replyCut script).near_amid
  stranded := (matched_or_stranded heap requestCut replyCut script).resolve_left
  same := by
    intro hwhole
    obtain ⟨-, halike⟩ := (alike_or_behind heap requestCut replyCut script).resolve_right fun h => hwhole h.1
    refine ⟨halike.contents, halike.client, fun step hstep => ?_⟩
    have hsevers := mt (fun h => affected_append_singleton_iff.2 (Or.inr h)) hstep
    exact (halike.perform hsevers ((unlimited_after heap script).not_severs step)).1
  completes := by
    intro operation a hcompletes
    rcases alike_or_behind heap requestCut replyCut script with ⟨-, halike⟩ | ⟨haffected, hbehind⟩
    · exact Or.inl (halike.completes (unlimited_after heap script) hcompletes)
    · exact (hbehind.completes hcompletes).imp_right fun hreports => ⟨haffected, hreports⟩
  onward _ _ := (settled_after heap requestCut replyCut script).perform_unlimited
  fails := by
    intro operation hasks haffected
    rcases affected_append_singleton_iff.1 haffected with haffected | hsevers
    · obtain ⟨hfails, hcontents⟩ := (parted_of_affected haffected).lookup hasks
      exact ⟨⟨_, hfails, rfl⟩, hcontents⟩
    · have hjoined := (settled_after heap requestCut replyCut script).resolve_right fun h => h.not_severs _ hsevers
      obtain ⟨-, hcontents, hfails⟩ := hjoined.severed hsevers
      exact ⟨hfails, hcontents⟩
  kept haffected step := ((parted_of_affected haffected).perform step).2

/-- After three bytes of its first response a server has neither the slot nor the tag that it would have had, and its dump shows the size that it has. -/
theorem reports_less_after_cut : ∃ (heap : Heap) (script : List Step),
    (((start heap none (some 3)).after script).perform (.server (.table .endIndex))).1 = .ok (.index (.ofNat 1)) ∧
      (((start heap none none).after script).perform (.server (.table .endIndex))).1 = .ok (.index (.ofNat 2)) ∧
      (((start heap none (some 3)).after script).perform (.server (.table (.isTagged (.ofNat 1))))).1 = .ok (.flag false) ∧
      (((start heap none none).after script).perform (.server (.table (.isTagged (.ofNat 1))))).1 = .ok (.flag true) ∧
      (((start heap none (some 3)).after script).perform (.server (.dump none))).1 = .ok (.printed
        "<knownObjectTable size=\"1\"/> // server-side table, contents are only printable at the client\n" false) ∧
      (((start heap none none).after script).perform (.server (.dump none))).1 = .ok (.printed
        "<knownObjectTable size=\"2\"/> // server-side table, contents are only printable at the client\n" false) := by
  let heap : Heap := ⟨0, .default, [], [], 0x1000, 0x9e3779b9, .empty, 0⟩
  let script : List Step := [.heap (.define ⟨"p/A", [], false⟩), .heap (.allocate 0),
    .server (.table (.indexAt (.handle ⟨0⟩) true))]
  exact ⟨heap, script, by decide +kernel⟩

end Wired

end KnownObjects
