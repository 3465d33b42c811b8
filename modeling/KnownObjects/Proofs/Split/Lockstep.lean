import KnownObjects.Proofs.Split.Pipes
import KnownObjects.Proofs.Wire.Bodies

/-!
# Calls stay in step

A call that reads a malformed body fails, but it has taken the whole frame off the stream, so the next call goes on with the next frame. As long as each frame has arrived by the time its call reads, every call gets the body that was meant for it, whatever the calls before it got.

The frames may all wait from the start, or the peer may send them when it is asked, early or in time, and in pieces that have nothing to do with where a frame ends. `Timely` asks for no more than that the first frames have arrived when as many calls are to read them.
-/

namespace KnownObjects

open Wire

namespace StreamChannel

section

variable {π : Type} [Peer π]

/-- What a peer sends back to one request after the other. -/
inductive Answers : π → List Request → List (List UInt8) → π → Prop
  | nil (peer : π) : Answers peer [] [] peer
  | cons {peer next last : π} {request : Request} {requests : List Request} {answer : List UInt8}
    {answers : List (List UInt8)} :
    (Peer.react (frame request) : Action Fatal π _).Ends peer (.ok answer) next → Answers next requests answers last →
    Answers peer (request :: requests) (answer :: answers) last

theorem answers_of_silence (requests : List Request) :
    Answers Silence.silence requests (List.replicate requests.length []) .silence := by
  induction requests with
  | nil => exact .nil _
  | cons request requests ih => exact .cons (Action.pure_ends _ _) ih

end

/-- By the time of a call its frame and all before it have arrived, waiting from the start or in the answers so far. -/
def Timely (waiting : List UInt8) (answers bodies : List (List UInt8)) : Prop :=
  ∀ k < bodies.length, (bodies.take (k + 1)).flatMap packed <+: waiting ++ (answers.take (k + 1)).flatten

theorem timely_of_waiting {waiting : List UInt8} {bodies : List (List UInt8)} (h : bodies.flatMap packed <+: waiting)
    (answers : List (List UInt8)) : Timely waiting answers bodies := by
  intro k _
  have hall : (bodies.take (k + 1)).flatMap packed <+: bodies.flatMap packed := by
    refine ⟨(bodies.drop (k + 1)).flatMap packed, ?_⟩
    rw [← List.flatMap_append, List.take_append_drop]
  exact (hall.trans h).trans (List.prefix_append _ _)

/-- The first call finds its frame, and the frames of the others are in time behind it. -/
theorem Timely.next {waiting answer body : List UInt8} {answers bodies : List (List UInt8)}
    (h : Timely waiting (answer :: answers) (body :: bodies)) :
    ∃ rest, waiting ++ answer = packed body ++ rest ∧ Timely rest answers bodies := by
  have hfirst := h 0 (Nat.succ_pos _)
  simp only [List.take_succ_cons, List.take_zero, List.flatMap_cons, List.flatMap_nil, List.flatten_cons,
    List.flatten_nil, List.append_nil] at hfirst
  obtain ⟨rest, hrest⟩ := hfirst
  refine ⟨rest, hrest.symm, fun k hk => ?_⟩
  have hnext := h (k + 1) (Nat.succ_lt_succ hk)
  rwa [List.take_succ_cons, List.take_succ_cons, List.flatMap_cons, List.flatten_cons, ← List.append_assoc, ← hrest,
    List.append_assoc, List.prefix_append_right_inj] at hnext

@[simp] theorem received_some (x : Except ChannelError Response) : received (some <$> x) = x := by cases x <;> rfl

/-- What a row of calls leaves when the bodies were read from their frames. -/
structure Caught {π : Type} (requests : List Request) (answers bodies : List (List UInt8)) (last : π)
    (c d : StreamChannel π) : Prop where
  sink : d.sink = { c.sink with written := c.sink.written ++ requests.flatMap frame }
  peer : d.peer = last
  failing : d.source.failing = c.source.failing
  /-- The frames are used up, and nothing else is. -/
  bytes : bodies.flatMap packed ++ d.source.bytes = c.source.bytes ++ answers.flatten

theorem exists_caught {π : Type} [Peer π] {bodies : List (List UInt8)} (hlength : ∀ body ∈ bodies, body.length ≤ maxFrame)
    {requests : List Request} (hcount : requests.length = bodies.length) {answers : List (List UInt8)} {last : π}
    {c : StreamChannel π} (hsink : ¬c.sink.Lacks (requests.flatMap frame)) (hanswers : Answers c.peer requests answers last)
    (htimely : Timely c.source.bytes answers bodies) :
    ∃ d, (requests.mapM Channel.call : Action Fatal (StreamChannel π) _).Ends c (.ok (bodies.map ofBody)) d ∧
      Caught requests answers bodies last c d := by
  -- One call for each body: it reads the first frame, and leaves a channel on which the others are in time.
  induction bodies generalizing requests answers c with
  | nil =>
    obtain rfl := List.length_eq_zero_iff.1 hcount
    cases hanswers
    rw [List.mapM_nil]
    exact ⟨c, Action.pure_ends _ c, ⟨by simp, rfl, rfl, by simp⟩⟩
  | cons body bodies ih =>
    cases hanswers with
    | nil => exact nomatch hcount
    | @cons _ next _ request requests answer answers hreact hanswers =>
      rw [List.flatMap_cons] at hsink
      obtain ⟨hfirst, hothers⟩ := Sink.not_lacks_append.1 hsink
      obtain ⟨rest, hwaiting, htimely⟩ := htimely.next
      have hwrite := writeFrame_of_not_lacks request.framed.length hfirst
      have hread : readFrame (α := Response) { c.source with bytes := c.source.bytes ++ answer } =
          (some <$> ofBody body, { c.source with bytes := rest }) := by
        rw [hwaiting]
        exact readFrame_packed (hlength body List.mem_cons_self) { c.source with bytes := rest }
      have hcall := call_ends_of_sent hwrite hreact hread
      rw [received_some] at hcall
      obtain ⟨d, hcalls, hcaught⟩ := ih (fun b hb => hlength b (List.mem_cons_of_mem _ hb)) (Nat.succ.inj hcount)
        (c := ⟨{ c.sink with written := c.sink.written ++ frame request }, { c.source with bytes := rest }, next⟩)
        hothers hanswers htimely
      refine ⟨d, ?_, ⟨?_, hcaught.peer, hcaught.failing, ?_⟩⟩
      · rw [List.mapM_cons]
        exact hcall.bind (hcalls.bind (Action.pure_ends _ d))
      · rw [hcaught.sink, List.flatMap_cons, ← List.append_assoc]
      · rw [List.flatMap_cons, List.append_assoc, hcaught.bytes, List.flatten_cons, ← List.append_assoc, ← List.append_assoc,
          hwaiting]

/-- Over every stream on which the frames of the bodies arrive in time, each call gets what its own body holds, also after calls that failed. -/
def Receives (bodies : List (List UInt8)) : Prop :=
  ∀ (π : Type) [Peer π] (c : StreamChannel π) (requests : List Request) (answers : List (List UInt8)) (last : π),
    requests.length = bodies.length → ¬c.sink.Lacks (requests.flatMap frame) → Answers c.peer requests answers last →
    Timely c.source.bytes answers bodies →
    ∃ d, (requests.mapM Channel.call : Action Fatal (StreamChannel π) _).Ends c (.ok (bodies.map ofBody)) d ∧
      Caught requests answers bodies last c d

end StreamChannel

/-- Bodies of any content within the limit are read in step, by a reader of any message and by calls. -/
theorem in_step_of_length_le {bodies : List (List UInt8)} (hlength : ∀ body ∈ bodies, body.length ≤ maxFrame) :
    InStep Request bodies ∧ InStep Response bodies ∧ InStep Location bodies ∧ InStep Slot bodies ∧
      StreamChannel.Receives bodies :=
  ⟨request_local.inStep hlength, response_local.inStep hlength, location_local.inStep hlength, slot_local.inStep hlength,
    fun _ _ _ _ _ _ hcount hsink hanswers htimely =>
      StreamChannel.exists_caught hlength hcount hsink hanswers htimely⟩

/-- A variant that does not exist, an index with a byte to spare, a text that is longer than its body, nothing at all, and an address. -/
def mixedBodies : List (List UInt8) := [[9], [1, 5, 0xff], [3, 0xff, 0x01, 65], [], [2, 0x80, 0x20]]

/-- Three of five calls fail, and the other two get their responses. -/
theorem in_step_over_mixedBodies :
    (∀ body ∈ mixedBodies, body.length ≤ maxFrame) ∧
    readTimes Response 6 (.ofBytes (mixedBodies.flatMap packed)) =
      ([.error (.malformed .badVariant), .ok (some (.reply (.existingIndex ⟨5⟩))), .error (.malformed .endOfBody),
        .error (.malformed .endOfBody), .ok (some (.reply (.pointer ⟨4096⟩))), .ok none], .ofBytes []) ∧
    ∃ d, ((List.replicate 5 (Request.getPointer ⟨1⟩)).mapM Channel.call : Action Fatal (StreamChannel Silence) _).Ends
      (.ofBytes (mixedBodies.flatMap packed) .silence)
      (.ok [.error (.malformed .badVariant), .ok (.reply (.existingIndex ⟨5⟩)), .error (.malformed .endOfBody),
        .error (.malformed .endOfBody), .ok (.reply (.pointer ⟨4096⟩))]) d := by
  have hlength : ∀ body ∈ mixedBodies, body.length ≤ maxFrame := by decide
  obtain ⟨-, hresponses, -, -, hcalls⟩ := in_step_of_length_le hlength
  refine ⟨hlength, hresponses.ended 1, ?_⟩
  obtain ⟨d, hends, -⟩ := hcalls Silence (.ofBytes (mixedBodies.flatMap packed) .silence)
    (List.replicate 5 (.getPointer ⟨1⟩)) _ _ rfl (Sink.not_lacks_of_unlimited rfl _) (StreamChannel.answers_of_silence _)
    (StreamChannel.timely_of_waiting (List.prefix_refl _) _)
  exact ⟨d, hends⟩

end KnownObjects
