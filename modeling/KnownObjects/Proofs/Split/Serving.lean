import KnownObjects.Proofs.Split.Pipes
import KnownObjects.Proofs.Table.Contract
import KnownObjects.Proofs.Wire.Bodies

/-!
# The service of a stream

Serving a stream comes to the same as reading all the requests there are in it and serving them one after the other. What follows the last request that is read, be it the end of the input, a frame that is cut or a malformed body, has no effect at all and only decides the result.

`Site.Service` lists how the service can end: all requests are answered, the response to one of them does not fit the sink, or the table has no slot left for a new object. In each case it says which requests were served and what was written. A client whose handles nobody else gives back has no other way to give up, and no response that it sends is too long for a frame, so the list is complete whatever bytes arrive.
-/

namespace KnownObjects

open Wire

namespace Site

/-- How the service of a stream ends that brings these requests and then this ending, if `served` others were answered before. -/
inductive Service (s : Site) (requests : List Request) (ending : Except ChannelError Unit) (sink : Sink) (served : Nat) :
    Except Fatal (Except ChannelError Nat × Sink) → Site → Prop
  | finished {responses : List Response} {t : Site} : (requests.mapM serve).Ends s (.ok responses) t →
    ¬sink.Lacks (responses.flatMap frame) →
    Service s requests ending sink served
      (.ok (ending.map fun _ => served + requests.length,
        { sink with written := sink.written ++ responses.flatMap frame })) t
  /-- The request was served all the same, and nothing after it. -/
  | unwritten {before after : List Request} {request : Request} {responses : List Response} {response : Response}
    {rest : List UInt8} {t u : Site} : requests = before ++ request :: after →
    (before.mapM serve).Ends s (.ok responses) t → (serve request).Ends t (.ok response) u →
    ¬sink.Lacks (responses.flatMap frame) →
    Sink.Lacks { sink with written := sink.written ++ responses.flatMap frame } (frame response) → IsCut response rest →
    Service s requests ending sink served
      (.ok (.error (.transfer .outputFull), { sink with written := sink.written ++ responses.flatMap frame ++ rest })) u
  | full {before after : List Request} {request : Request} {responses : List Response} {t u : Site} :
    requests = before ++ request :: after → (before.mapM serve).Ends s (.ok responses) t →
    (serve request).Ends t (.error .tableFull) u → 4294967295 ≤ t.table.slots.handles.length + 2 →
    ¬sink.Lacks (responses.flatMap frame) → Service s requests ending sink served (.error .tableFull) u

variable {s t u : Site} {request : Request} {requests : List Request} {ending : Except ChannelError Unit} {sink : Sink}
  {served : Nat}

theorem mapM_serve_cons {response : Response} {responses : List Response} (h : (serve request).Ends s (.ok response) t)
    (hothers : (requests.mapM serve).Ends t (.ok responses) u) :
    ((request :: requests).mapM serve).Ends s (.ok (response :: responses)) u := by
  rw [List.mapM_cons]
  exact h.bind (hothers.bind (Action.pure_ends _ u))

theorem of_mapM_serve_cons {responses : List Response}
    (h : ((request :: requests).mapM serve).Ends s (.ok responses) u) :
    ∃ response others t, responses = response :: others ∧ (serve request).Ends s (.ok response) t ∧
      (requests.mapM serve).Ends t (.ok others) u := by
  rw [List.mapM_cons] at h
  rcases h.of_bind with ⟨response, t, hserve, hrest⟩ | ⟨e, he, -⟩
  · rcases hrest.of_bind with ⟨others, v, hothers, hpure⟩ | ⟨e, he, -⟩
    · obtain ⟨hresponses, rfl⟩ := hpure.unique (Action.pure_ends _ v)
      exact ⟨response, others, t, Except.ok.inj hresponses, hserve, hothers⟩
    · exact nomatch he
  · exact nomatch he

/-- One more request in front, which is answered. -/
theorem Service.cons {response : Response} {r : Except Fatal (Except ChannelError Nat × Sink)}
    (hserve : (serve request).Ends s (.ok response) t) (hroom : ¬sink.Lacks (frame response))
    (h : Service t requests ending { sink with written := sink.written ++ frame response } (served + 1) r u) :
    Service s (request :: requests) ending sink served r u := by
  have hfits : ∀ {responses : List Response},
      ¬Sink.Lacks { sink with written := sink.written ++ frame response } (responses.flatMap frame) →
      ¬sink.Lacks ((response :: responses).flatMap frame) := by
    intro responses hothers
    rw [List.flatMap_cons]
    exact Sink.not_lacks_append.2 ⟨hroom, hothers⟩
  have hwritten : ∀ responses : List Response, sink.written ++ frame response ++ responses.flatMap frame =
      sink.written ++ (response :: responses).flatMap frame := by
    intro responses
    rw [List.flatMap_cons, List.append_assoc]
  cases h with
  | @finished responses _ hall hothers =>
    have hcount : served + 1 + requests.length = served + (request :: requests).length := by
      rw [List.length_cons]
      omega
    simp only [hwritten, hcount]
    exact .finished (mapM_serve_cons hserve hall) (hfits hothers)
  | @unwritten before after next responses _ _ _ _ hrequests hbefore hnext hothers hlacks hcut =>
    simp only [hwritten] at hlacks ⊢
    exact .unwritten (congrArg (request :: ·) hrequests) (mapM_serve_cons hserve hbefore) hnext (hfits hothers) hlacks
      hcut
  | @full before after next responses _ _ hrequests hbefore hnext hfull hothers =>
    exact .full (congrArg (request :: ·) hrequests) (mapM_serve_cons hserve hbefore) hnext hfull (hfits hothers)

theorem mapM_serve_nil (s : Site) : (([] : List Request).mapM serve).Ends s (.ok []) s := by
  rw [List.mapM_nil]
  exact Action.pure_ends _ s

theorem not_lacks_nil (sink : Sink) : ¬sink.Lacks (([] : List Response).flatMap frame) := by simp [Sink.Lacks]

/-- Nothing is served where there is no request. -/
theorem service_nil (s : Site) (ending : Except ChannelError Unit) (sink : Sink) (served : Nat) :
    Service s [] ending sink served (.ok (ending.map fun _ => served, sink)) s := by
  have hservice : Service s [] ending sink served _ s := .finished (mapM_serve_nil s) (not_lacks_nil sink)
  rwa [List.flatMap_nil, List.append_nil] at hservice

/-- Every stream is served in one of the ways listed. -/
theorem exists_service (hs : ∃ known, s.Knows known) (source : Source) (sink : Sink) (served : Nat) :
    ∃ r t, (serveStream source sink served).Ends s r t ∧
      Service s (readFrames source).1 (readFrames (α := Request) source).2 sink served r t := by
  induction source using readFrames.induct (α := Request) generalizing s sink served with
  | case1 source e rest hread =>
    rw [readFrames_of_error hread]
    exact ⟨_, s, serveStream_broken hread s, service_nil s (.error e) sink served⟩
  | case2 source rest hread =>
    rw [readFrames_of_end hread]
    exact ⟨_, s, serveStream_end hread s, service_nil s (.ok ()) sink served⟩
  | case3 source request rest hread ih =>
    rw [readFrames_of_message hread]
    have hsplit := (List.nil_append (request :: (readFrames rest).1)).symm
    obtain ⟨known, hknows⟩ := hs
    -- The service stops at this request if the table is full or the response does not fit, and goes on otherwise.
    obtain ⟨r, t, hserve, herror⟩ := hknows.exists_answer_or_full request
    cases r with
    | error f =>
      obtain ⟨rfl, hfull⟩ := herror f rfl
      exact ⟨_, t, serveStream_failed hread hserve, .full hsplit (mapM_serve_nil s) hserve hfull (not_lacks_nil sink)⟩
    | ok response =>
      have hlength := (serve_sends request _ _ _ hserve).length
      by_cases hroom : sink.Lacks (frame response)
      · obtain ⟨cut, hcut, hwrite⟩ := exists_cut_of_lacks hlength hroom
        have hservice : Service s (request :: (readFrames rest).1) (readFrames (α := Request) rest).2 sink served
            (.ok (.error (.transfer .outputFull), { sink with written := sink.written ++ [] ++ cut })) t :=
          .unwritten hsplit (mapM_serve_nil s) hserve (not_lacks_nil sink)
            (by rwa [List.flatMap_nil, List.append_nil]) hcut
        rw [List.append_nil] at hservice
        exact ⟨_, t, serveStream_unwritten hread hserve hwrite, hservice⟩
      · obtain ⟨q, u, hrest, hservice⟩ := ih (hknows.served hserve).1
          { sink with written := sink.written ++ frame response } (served + 1)
        have hwrite := writeFrame_of_not_lacks hlength hroom
        exact ⟨q, u, serveStream_next hread hserve hwrite hrest, hservice.cons hserve hroom⟩

/-- Requests are all answered while there are slots for as many new objects. -/
theorem exists_responses (hs : ∃ known, s.Knows known)
    (hroom : s.table.slots.handles.length + requests.length + 1 < 4294967295) :
    ∃ responses t, (requests.mapM serve).Ends s (.ok responses) t := by
  induction requests generalizing s with
  | nil =>
    rw [List.mapM_nil]
    exact ⟨[], s, Action.pure_ends _ s⟩
  | cons request requests ih =>
    rw [List.length_cons] at hroom
    obtain ⟨known, hknows⟩ := hs
    obtain ⟨r, t, hserve, herror⟩ := hknows.exists_answer_or_full request
    cases r with
    | error f =>
      obtain ⟨-, hfull⟩ := herror f rfl
      omega
    | ok response =>
      obtain ⟨hknown, hlength⟩ := hknows.served hserve
      obtain ⟨responses, u, hothers⟩ := ih hknown (by omega)
      exact ⟨_, u, mapM_serve_cons hserve hothers⟩

/-- Where all requests are answered and the sink takes all responses, the service does nothing else. -/
theorem serveStream_ends {source : Source} {responses : List Response}
    (hanswered : ((readFrames source).1.mapM serve).Ends s (.ok responses) t) (hroom : ¬sink.Lacks (responses.flatMap frame)) :
    (serveStream source sink served).Ends s
      (.ok ((readFrames (α := Request) source).2.map fun _ => served + (readFrames (α := Request) source).1.length,
        { sink with written := sink.written ++ responses.flatMap frame })) t := by
  induction source using readFrames.induct (α := Request) generalizing s sink served responses with
  | case1 source e rest hread =>
    rw [readFrames_of_error hread] at hanswered ⊢
    obtain ⟨hresponses, rfl⟩ := hanswered.unique (mapM_serve_nil s)
    obtain rfl := Except.ok.inj hresponses
    rw [List.flatMap_nil, List.append_nil]
    exact serveStream_broken hread t
  | case2 source rest hread =>
    rw [readFrames_of_end hread] at hanswered ⊢
    obtain ⟨hresponses, rfl⟩ := hanswered.unique (mapM_serve_nil s)
    obtain rfl := Except.ok.inj hresponses
    rw [List.flatMap_nil, List.append_nil]
    exact serveStream_end hread t
  | case3 source request rest hread ih =>
    rw [readFrames_of_message hread] at hanswered ⊢
    obtain ⟨response, others, u, rfl, hserve, hothers⟩ := of_mapM_serve_cons hanswered
    rw [List.flatMap_cons] at hroom
    obtain ⟨hfirst, hrest⟩ := Sink.not_lacks_append.1 hroom
    have hwrite := writeFrame_of_not_lacks (serve_sends request _ _ _ hserve).length hfirst
    have hends : (serveStream rest { sink with written := sink.written ++ frame response } (served + 1)).Ends u _ t :=
      ih hothers hrest
    rw [List.append_assoc, ← List.flatMap_cons, Nat.add_assoc, Nat.add_comm 1] at hends
    exact serveStream_next hread hserve hwrite hends

/-- The service of a stream is the service of the requests that are read from it, in their order. -/
structure Folds (s : Site) (source : Source) : Prop where
  /-- If the sink takes everything, the responses are written one after the other, and the ending of the input decides the result. -/
  complete : ∀ (responses : List Response) (t : Site) (sink : Sink),
    ((readFrames source).1.mapM serve).Ends s (.ok responses) t → ¬sink.Lacks (responses.flatMap frame) →
    (serveStream source sink 0).Ends s
      (.ok ((readFrames (α := Request) source).2.map fun _ => (readFrames (α := Request) source).1.length,
        { sink with written := sink.written ++ responses.flatMap frame })) t
  answered : s.table.slots.handles.length + (readFrames (α := Request) source).1.length + 1 < 4294967295 →
    ∃ responses t, ((readFrames source).1.mapM serve).Ends s (.ok responses) t
  every : ∀ sink, ∃ r t, (serveStream source sink 0).Ends s r t ∧
    Service s (readFrames source).1 (readFrames (α := Request) source).2 sink 0 r t
  halts : Halts source (readFrames (α := Request) source).2

/-- As long as nobody gives back its handles, a client serves any stream by serving the requests in it. -/
theorem folds_of_spared (hs : s.Spared) (source : Source) : s.Folds source where
  complete responses t sink hanswered hroom := by
    have hends : (serveStream source sink 0).Ends s _ t := serveStream_ends hanswered hroom
    rwa [Nat.zero_add] at hends
  answered hroom := exists_responses hs.exists_knows hroom
  every sink := exists_service hs.exists_knows source sink 0
  halts := readFrames_halts source

/-- Behind two requests there is a malformed body and one more request, for an object that stays unknown. -/
theorem folds_of_malformed : ∃ (s t : Site) (responses : List Response), s.Spared ∧
    ([Request.getIndexAt (.handle ⟨0⟩), .getPointer ⟨1⟩].mapM serve).Ends s (.ok responses) t ∧
    t.table.slots.handles.length = 1 ∧
    (serveStream (.ofBytes ([[1, 0, 0], [3, 1], [9], [1, 0, 1]].flatMap packed)) .empty 0).Ends s
      (.ok (.error (.malformed .badVariant), ⟨responses.flatMap frame, none⟩)) t := by
  have hstart := Spared.start (@Heap.Reached.created 0 .default _ rfl)
  have hnode := hstart.performed (.heap (.define ⟨"p/Node", [], false⟩)) (by decide) (by decide +kernel)
  have hfirst := hnode.performed (.heap (.allocate 0)) (by decide) (by decide +kernel)
  have hsecond := hfirst.performed (.heap (.allocate 0)) (by decide) (by decide +kernel)
  have hread : readFrames (.ofBytes ([[1, 0, 0], [3, 1], [9], [1, 0, 1]].flatMap packed)) =
      ([Request.getIndexAt (.handle ⟨0⟩), .getPointer ⟨1⟩], .error (.malformed .badVariant)) := by
    have hone : readFrame (.ofBytes ([[1, 0, 0], [3, 1], [9], [1, 0, 1]].flatMap packed)) =
        (.ok (some (Request.getIndexAt (.handle ⟨0⟩))), .ofBytes ([[3, 1], [9], [1, 0, 1]].flatMap packed)) := rfl
    have htwo : readFrame (.ofBytes ([[3, 1], [9], [1, 0, 1]].flatMap packed)) =
        (.ok (some (Request.getPointer ⟨1⟩)), .ofBytes ([[9], [1, 0, 1]].flatMap packed)) := rfl
    rw [readFrames_of_message hone, readFrames_of_message htwo, readFrames_of_error rfl]
  have hfolds := folds_of_spared hsecond (.ofBytes ([[1, 0, 0], [3, 1], [9], [1, 0, 1]].flatMap packed))
  obtain ⟨responses, t, hanswered⟩ := hfolds.answered (by rw [hread]; decide +kernel)
  have hcomplete := hfolds.complete responses t .empty hanswered (Sink.not_lacks_of_unlimited rfl _)
  rw [hread] at hanswered hcomplete
  refine ⟨_, t, responses, hsecond, hanswered, ?_, hcomplete⟩
  rw [← hanswered.2]
  decide +kernel

end Site

end KnownObjects
