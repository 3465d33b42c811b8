import KnownObjects.Proofs.Blindness
import KnownObjects.Proofs.Split.AnyPeer

/-!
# Tags show nowhere else

A session has many tables over many heaps, with channels between them and with passes that run inside of compilations. Nothing that it answers depends on tags, from indices and handles to the text of a dump, but for the answers about tags themselves. A script is compared with what is left of it when no tag is set or asked for and all flags are down. Two scripts that leave the same are answered the same.

A command of which something is left is answered alike at alike sessions. Any other command leaves the session alike to what it was. For a compilation, both are known of the commands of its pass.
-/

namespace KnownObjects

namespace Session

/-! ### Scripts without tags -/

def TableOperation.bare? : TableOperation → Option TableOperation
  | .tag _ => none
  | .isTagged _ => none
  | .indexAt location _ => some (.indexAt location false)
  | .indexOf term through _ => some (.indexOf term through false)
  | operation => some operation

mutual

/-- What is left of a command without tags. The commands of a pass are looked through as well. -/
def Command.bare? : Command → Option Command
  | .onTable n operation => operation.bare?.map (.onTable n)
  | .compile n pass options => some (.compile n (bareAll pass) options)
  | c => some c

def Command.bareAll : List Command → List Command
  | [] => []
  | c :: rest =>
    match bare? c with
    | some plain => plain :: bareAll rest
    | none => bareAll rest

end

mutual

/-- What an answer shows when nobody asks about tags. -/
def Command.shown : Command → Answer → Option Answer
  | .onTable _ operation, answer => operation.bare?.map fun _ => answer
  | .compile _ pass _, .compiled id debug answers before after =>
    some (.compiled id debug (shownAll pass answers) before after)
  | .compile _ pass _, .aborted failure debug answers before =>
    some (.aborted failure debug (shownAll pass answers) before)
  | _, answer => some answer

def Command.shownAll : List Command → List Answer → List Answer
  | c :: rest, answer :: answers =>
    match shown c answer with
    | some answer => answer :: shownAll rest answers
    | none => shownAll rest answers
  | _, _ => []

end

/-! ### Commands -/

namespace Blind

theorem runOnTable {n : Nat} {e f : Entry} (hef : e.Alike f) {operation plain : TableOperation}
    (hbare : operation.bare? = some plain) : Blind (runOnTable n e operation) (runOnTable n f plain) := by
  have hlinks : Server.Answers Link.Alike := Link.answers_alike
  cases operation with
  | tag | isTagged => cases hbare
  | isNull i =>
    cases hbare
    exact .pure rfl
  | role =>
    cases hbare
    exact .pure (congrArg Answer.role hef.role_eq)
  | endIndex | slots | debug =>
    cases hbare
    cases hef with
    | direct | server => exact .pure rfl
  | slot i =>
    cases hbare
    exact atTable hef ((Site.Blind.slot i).map _) ((Server.Blind.slot i).map _)
  | indexAt location constant =>
    cases hbare
    exact atTable hef ((Site.Blind.indexAt location constant).map _) ((Server.Blind.indexAt hlinks location constant).map _)
  | existingIndexAt location =>
    cases hbare
    exact atTable hef ((Site.Blind.existingIndexAt location).map _) ((Server.Blind.existingIndexAt hlinks location).map _)
  | indexOf term through constant =>
    cases hbare
    cases hef with
    | direct serves table tags =>
      exact atSiteWith tags fun object => (Site.Blind.tagging (Site.Blind.indexOf object) constant).map _
    | server slots tags tags' client hchannel =>
      exact withAddress fun object => atServer rfl hchannel ((Server.Blind.indexOf object).map _)
  | existingIndexOf term through =>
    cases hbare
    cases hef with
    | direct serves table tags => exact atSiteWith tags fun object => (Site.Blind.existingIndexOf object).map _
    | server => exact .pure rfl
  | pointerOf i through =>
    cases hbare
    cases hef with
    | direct serves table tags => exact atSite tags _ ((Site.Blind.pointerOf i).map _)
    | server slots tags tags' client hchannel => exact atServer rfl hchannel ((Server.Blind.pointerOf i).map _)
  | dump printing =>
    cases hbare
    exact (printEntry none hef printing).bind_eq fun _ => .pure rfl
  | serve request =>
    cases hbare
    exact atClient hef ((Site.Blind.serve request).map _)
  | serveObject term through =>
    cases hbare
    cases hef with
    | server => exact .pure rfl
    | direct serves table tags =>
      cases serves with
      | false => exact .pure rfl
      | true =>
        refine get_bind fun _ _ _ => withAddress fun object => ?_
        exact atSite tags table.heapId ((Site.Blind.serve (.getIndex object)).map _)
  | serveStream requests bytes capacity =>
    cases hbare
    exact atClient hef ((serveStream_blind _ _ 0).bind_eq fun _ => .pure rfl)

/-- A pass whose answers show the same makes a compilation that shows the same. -/
theorem runCompilation (n : Nat) (options : DumpOptions) (commands : List Command)
    {pass other : Run (List Answer × Option Fatal)}
    (h : Action.Coupled Alike Eq (fun x y => Command.shownAll commands x.1 = y.1 ∧ x.2 = y.2) pass other) :
    Action.Coupled Alike Eq (fun x y => Command.shown (.compile n commands options) x = some y)
      (runCompilation n options pass) (runCompilation n options other) := by
  refine Action.Coupled.get.bind fun s t hst => ?_
  refine cases_rel (hst.idleTable? n) (.pure rfl) fun hentry => get_bind fun s tables _ => ?_
  refine Action.Coupled.bind_eq (change fun _ => rfl) fun _ => (Action.Coupled.note _ _ _).bind_eq fun _ => ?_
  rw [hentry.compilationText?_eq]
  refine (compilationDump n options).bind_eq fun before => (settingApart n h).bind fun x y hxy => ?_
  rcases hxy.ok_or_error with ⟨⟨answers, failure⟩, ⟨answers', _⟩, rfl, rfl, rfl, rfl⟩ | ⟨stop, _, rfl, rfl, rfl⟩
  · refine (conclude n _ _ _).bind_eq fun concluded => ?_
    split
    · exact (compilationDump n options).bind_eq fun after => .pure rfl
    · exact .pure rfl
  · exact (discard n).bind_eq fun _ => fun _ _ hst => ⟨.error rfl, hst⟩

end Blind

theorem runOnTable_skips {s : Session} {n : Nat} {e : Entry} (he : s.table? n = some e) {operation : TableOperation}
    (hnone : operation.bare? = none) :
    ∃ answer t, (runOnTable n e operation).Ends s (.ok answer) t ∧ Alike t s := by
  cases operation with
  | tag i =>
    refine atTable_skips he ((Site.Blind.tag i).bind fun _ _ _ => .pure trivial) ?_
    exact (Server.Blind.tag i).bind fun _ _ _ => .pure trivial
  | isTagged i => exact atTable_skips he (fun _ _ hst => ⟨.ok trivial, hst⟩) fun _ _ hst => ⟨.ok trivial, hst⟩
  | _ => cases hnone

/-- A command of which nothing is left comes to its end, and leaves the session alike. -/
theorem step_skips {c : Command} (hbare : c.bare? = none) :
    Action.Coupled Alike Eq (fun x (_ : Unit) => c.shown x = none) (step c) (pure ()) := by
  cases c with
  | onTable n operation =>
    have hnone : operation.bare? = none := Option.map_eq_none_iff.1 hbare
    intro s t hst
    have hskips : ∃ answer u, (step (.onTable n operation)).Ends s (.ok answer) u ∧ Alike u s := by
      cases htable : s.table? n with
      | none =>
        refine ⟨.noTable, s, (Action.get_ends s).bind ?_, rfl⟩
        rw [htable]
        exact Action.pure_ends _ s
      | some e =>
        obtain ⟨answer, u, hends, hu⟩ := runOnTable_skips htable hnone
        refine ⟨answer, u, (Action.get_ends s).bind ?_, hu⟩
        rwa [htable]
    obtain ⟨answer, u, ⟨hresult, hstate⟩, hu⟩ := hskips
    rw [hresult, hstate]
    refine ⟨.ok ?_, Eq.trans hu hst⟩
    simp only [Command.shown, hnone, Option.map_none]
  | _ => cases hbare

theorem channelAnswer_attach (l : Link) (client : Option Site) : channelAnswer (l.attach client) = channelAnswer l := by
  cases l with
  | route route => cases route <;> rfl
  | scripted | bytes => rfl

/-- Any command but a compilation is answered in full. -/
theorem step_blind_of_flat {c plain : Command} (hbare : c.bare? = some plain)
    (hflat : ∀ n pass options, c ≠ .compile n pass options) : Blind (step c) (step plain) := by
  cases c with
  | createHeap base alignment seed =>
    cases hbare
    exact Blind.createHeap base alignment seed
  | onHeap heapId operation =>
    cases hbare
    refine Blind.get_bind fun s tables _ => ?_
    dsimp only
    cases s.heaps[heapId]? with
    | none => exact .pure rfl
    | some heap => exact Blind.runOnHeap heapId heap operation
  | createTable kind =>
    cases hbare
    exact Blind.createTable kind
  | onTable n operation =>
    obtain ⟨plain, hplain, rfl⟩ := Option.map_eq_some_iff.1 hbare
    refine Action.Coupled.get.bind fun s t hst => ?_
    refine cases_rel (hst.table? n) (.pure rfl) fun hentry => ?_
    exact Blind.runOnTable hentry hplain
  | dropTable n =>
    cases hbare
    refine Action.Coupled.get.bind fun s t hst => ?_
    refine cases_rel (hst.idleTable? n) (.pure rfl) fun hentry => ?_
    exact (Blind.discard n).bind_eq fun _ => .pure rfl
  | intoChannel n =>
    cases hbare
    refine Action.Coupled.get.bind fun s t hst => ?_
    refine cases_rel (hst.idleTable? n) (.pure rfl) fun hentry => ?_
    cases hentry with
    | direct => exact .pure rfl
    | server slots tags tags' client hchannel =>
      refine Action.Coupled.bind_eq (.modify fun _ _ hst => hst.setTable n .none) fun _ => .pure ?_
      rw [← channelAnswer_attach _ none, hchannel, channelAnswer_attach]
  | compile n pass options => exact absurd rfl (hflat n pass options)

theorem shown_of_flat {c plain : Command} (hbare : c.bare? = some plain)
    (hflat : ∀ n pass options, c ≠ .compile n pass options) (answer : Answer) : c.shown answer = some answer := by
  cases c with
  | onTable n operation =>
    obtain ⟨plain, hplain, -⟩ := Option.map_eq_some_iff.1 hbare
    simp only [Command.shown, hplain, Option.map_some]
  | compile n pass options => exact absurd rfl (hflat n pass options)
  | _ => rfl

theorem runPass_blind_of {commands : List Command} (h : ∀ c ∈ commands, ∀ plain, c.bare? = some plain →
      Action.Coupled Alike Eq (fun x y => c.shown x = some y) (step c) (step plain)) :
    Action.Coupled Alike Eq (fun x y => Command.shownAll commands x.1 = y.1 ∧ x.2 = y.2) (runPass commands)
      (runPass (Command.bareAll commands)) := by
  induction commands with
  | nil => exact .pure ⟨rfl, rfl⟩
  | cons c rest ih =>
    have hrest := ih fun d hd => h d (List.mem_cons_of_mem c hd)
    simp only [runPass]
    cases hbare : c.bare? with
    | none =>
      -- The other pass does nothing in the place of the command that it lacks.
      have hplain : runPass (Command.bareAll (c :: rest)) =
          (pure () : Run Unit) >>= fun _ => runPass (Command.bareAll rest) >>= pure := by
        simp only [Command.bareAll, hbare, pure_bind, bind_pure]
      rw [hplain]
      refine (step_skips hbare).attempt_of_pure.bind fun r _ hr => ?_
      obtain ⟨answer, rfl, hshown⟩ := hr
      refine hrest.bind fun x y hxy => .pure ⟨?_, hxy.2⟩
      simp only [Command.shownAll, hshown, hxy.1]
    | some plain =>
      simp only [Command.bareAll, hbare, runPass]
      refine ((h c List.mem_cons_self plain hbare).attempt (D := Eq)).bind fun x y hxy => ?_
      rcases hxy.ok_or_error with ⟨answer, other, rfl, rfl, hshown⟩ | ⟨stop, _, rfl, rfl, rfl⟩
      · refine hrest.bind fun x y hxy => .pure ⟨?_, hxy.2⟩
        simp only [Command.shownAll, hshown, hxy.1]
      · cases stop with
        | fatal f => exact .pure ⟨rfl, rfl⟩
        | undefinedClass => exact fun _ _ hst => ⟨.error rfl, hst⟩

theorem step_blind (c plain : Command) (hbare : c.bare? = some plain) :
    Action.Coupled Alike Eq (fun x y => c.shown x = some y) (step c) (step plain) := by
  match c with
  | .compile n pass options =>
    cases hbare
    -- The commands of the pass are parts of the compilation, so the recursion ends.
    exact Blind.runCompilation n options pass (runPass_blind_of fun d hd plain => step_blind d plain)
  | .createHeap .. | .onHeap .. | .createTable .. | .onTable .. | .dropTable .. | .intoChannel .. =>
    refine (step_blind_of_flat hbare nofun).mono fun x y hxy => ?_
    rw [shown_of_flat hbare nofun, hxy]

/-! ### Scripts -/

theorem shown_stopped {c plain : Command} (hbare : c.bare? = some plain) (stop : Stop) :
    c.shown (answerOf (.error stop)) = some (answerOf (.error stop)) := by
  cases c with
  | compile n pass options => cases stop <;> rfl
  | _ => exact shown_of_flat hbare nofun _

theorem Alike.perform {s t : Session} (hst : Alike s t) {c plain : Command} (hbare : c.bare? = some plain) :
    c.shown (perform c s).1 = some (perform plain t).1 ∧ Alike (perform c s).2.2 (perform plain t).2.2 := by
  obtain ⟨hresult, hstate⟩ := step_blind c plain hbare s t hst
  rw [perform_eq, perform_eq]
  refine ⟨?_, hstate⟩
  rcases hresult.ok_or_error with ⟨x, y, hx, hy, hshown⟩ | ⟨stop, _, hx, hy, rfl⟩
  · rw [hx, hy]
    exact hshown
  · rw [hx, hy]
    exact shown_stopped hbare stop

theorem perform_skips (s : Session) {c : Command} (hbare : c.bare? = none) :
    c.shown (perform c s).1 = none ∧ Alike (perform c s).2.2 s := by
  obtain ⟨answer, t, hends, hshown, ht⟩ := (step_skips hbare).exists_ends (s := s) rfl
  rw [perform_eq, hends.1, hends.2]
  exact ⟨hshown, ht⟩

def answers (s : Session) (script : List Command) : List Answer := (performAll s script).map Prod.fst

theorem answers_cons (s : Session) (c : Command) (rest : List Command) :
    s.answers (c :: rest) = (perform c s).1 :: (perform c s).2.2.answers rest := rfl

/-- What a script shows is what is answered when no tag is set. -/
theorem shownAll_answers (script : List Command) {s t : Session} (hst : Alike s t) :
    Command.shownAll script (s.answers script) = t.answers (Command.bareAll script) := by
  induction script generalizing s t with
  | nil => rfl
  | cons c rest ih =>
    cases hbare : c.bare? with
    | none =>
      obtain ⟨hshown, hafter⟩ := perform_skips s hbare
      simp only [answers_cons, Command.shownAll, hshown, Command.bareAll, hbare]
      exact ih (Eq.trans hafter hst)
    | some plain =>
      obtain ⟨hshown, hafter⟩ := hst.perform hbare
      simp only [answers_cons, Command.shownAll, hshown, Command.bareAll, hbare]
      exact congrArg _ (ih hafter)

end Session

/-- Tags are exact at tables of every role, and nothing depends on them but what is answered about tags. -/
structure TagsApart (χ : Type) [Channel χ] : Prop where
  /-- At a table that reads a heap, whatever else is done with that heap. -/
  site : ∀ heap heapId, Desk.Tagging (⟨heap, .empty heapId⟩ : Site)
  /-- At a server, whatever happens at the other end of its channel. -/
  server : ∀ channel : χ, Desk.Tagging (Server.ofChannel channel)
  /-- A server sends the same requests, with the flags of its lookups up or down. -/
  requests : ∀ (channel : χ) (script other : List (Desk.Step (Server (Tapped χ)))),
    script.filterMap Desk.Step.bare? = other.filterMap Desk.Step.bare? →
    (Desk.follow script (Server.ofChannel ⟨channel, []⟩)).2.channel.sent =
      (Desk.follow other (Server.ofChannel ⟨channel, []⟩)).2.channel.sent
  /-- In a session, two scripts that leave the same without tags are answered the same. -/
  session : ∀ (s : Session) (script other : List Session.Command),
    Session.Command.bareAll script = Session.Command.bareAll other →
    Session.Command.shownAll script (s.answers script) = Session.Command.shownAll other (s.answers other)

theorem tagsApart (χ : Type) [Channel χ] : TagsApart χ where
  site heap heapId := Desk.tagging_of_untagged fun i => rfl
  server channel := Desk.tagging_of_untagged fun i => rfl
  requests channel script other hsame := by
    have htagging : Desk.Tagging (Server.ofChannel (Tapped.mk channel [])) := Desk.tagging_of_untagged fun i => rfl
    have hchannel := (Server.alike_iff.1 (htagging.inert script other hsame).2).2
    exact congrArg Tapped.sent hchannel
  session s script other hsame := by
    have hst : s.Alike s := Eq.refl s.bare
    rw [Session.shownAll_answers script hst, Session.shownAll_answers other hst, hsame]

/-- A flag that is up, a tag set in a pass and a question about it leave no more than a flag that is down. -/
example : Session.Command.bareAll [.onTable 0 (.indexAt (.handle ⟨0⟩) true),
      .compile 0 [.onTable 0 (.tag (.ofNat 1)), .onTable 0 .endIndex] ⟨true, false⟩, .onTable 0 (.isTagged (.ofNat 1))] =
    Session.Command.bareAll [.onTable 0 (.indexAt (.handle ⟨0⟩) false), .compile 0 [.onTable 0 .endIndex] ⟨true, false⟩] :=
  rfl

end KnownObjects
