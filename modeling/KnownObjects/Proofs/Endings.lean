import KnownObjects.Failure

/-!
# How a run ends

What a run logs plays no part in what it does, so the proofs look at a run only through `Action.Ends`: started in one state it ends with a result, or an error, and leaves another state. One lemma for each way to build a run says how the whole ends when its parts do. `Action.Keeps` is the other view, for relations between the two states that hold however a run ends.
-/

namespace KnownObjects.Action

variable {ε δ σ τ α β : Type}

/-- Started in `s`, the run ends with `r` and leaves `t`. -/
def Ends (a : Action ε σ α) (s : σ) (r : Except ε α) (t : σ) : Prop :=
  (a.run s).result = r ∧ (a.run s).state = t

theorem ends (a : Action ε σ α) (s : σ) : a.Ends s (a.run s).result (a.run s).state := ⟨rfl, rfl⟩

theorem Ends.unique {a : Action ε σ α} {s t u : σ} {r q : Except ε α} (h : a.Ends s r t) (h' : a.Ends s q u) :
    r = q ∧ t = u :=
  ⟨h.1.symm.trans h'.1, h.2.symm.trans h'.2⟩

theorem pure_ends (x : α) (s : σ) : (pure x : Action ε σ α).Ends s (.ok x) s := ⟨rfl, rfl⟩

theorem get_ends (s : σ) : (get : Action ε σ σ).Ends s (.ok s) s := ⟨rfl, rfl⟩

theorem set_ends (s t : σ) : (set t : Action ε σ PUnit).Ends s (.ok ()) t := ⟨rfl, rfl⟩

theorem modify_ends (f : σ → σ) (s : σ) : (modify f : Action ε σ PUnit).Ends s (.ok ()) (f s) := ⟨rfl, rfl⟩

theorem note_ends (level : Level) (message : String) (s : σ) :
    (note level message : Action ε σ Unit).Ends s (.ok ()) s := ⟨rfl, rfl⟩

theorem raise_ends (f : Fatal) (s : σ) : (raise f : Action Fatal σ α).Ends s (.error f) s := ⟨rfl, rfl⟩

theorem orRaise_ends (toFatal : δ → Fatal) (x : Except δ α) (s : σ) :
    (orRaise toFatal x : Action Fatal σ α).Ends s (x.mapError toFatal) s := by
  cases x with
  | ok x => exact pure_ends x s
  | error e => exact raise_ends (toFatal e) s

theorem Ends.bind {a : Action ε σ α} {f : α → Action ε σ β} {s t u : σ} {x : α} {r : Except ε β}
    (ha : a.Ends s (.ok x) t) (hf : (f x).Ends t r u) : (a >>= f).Ends s r u := by
  obtain ⟨hresult, rfl⟩ := ha
  have hrun : a.run s = ⟨.ok x, (a.run s).state, (a.run s).log⟩ := by rw [← hresult]
  simp only [Ends]
  rw [run_bind_ok hrun]
  exact hf

theorem Ends.bind_error {a : Action ε σ α} {f : α → Action ε σ β} {s t : σ} {e : ε}
    (ha : a.Ends s (.error e) t) : (a >>= f).Ends s (.error e) t := by
  obtain ⟨hresult, rfl⟩ := ha
  have hrun : a.run s = ⟨.error e, (a.run s).state, (a.run s).log⟩ := by rw [← hresult]
  simp only [Ends]
  rw [run_bind_error hrun]
  exact ⟨rfl, rfl⟩

theorem Ends.map {a : Action ε σ α} {s t : σ} {r : Except ε α} (ha : a.Ends s r t) (f : α → β) :
    (f <$> a).Ends s (r.map f) t := by
  rw [map_eq_pure_bind]
  cases r with
  | ok x => exact ha.bind (pure_ends (f x) t)
  | error e => exact ha.bind_error

/-- The second part starts where the first one ended, or the first one failed. -/
theorem Ends.of_bind {a : Action ε σ α} {f : α → Action ε σ β} {s u : σ} {r : Except ε β} (h : (a >>= f).Ends s r u) :
    (∃ x t, a.Ends s (.ok x) t ∧ (f x).Ends t r u) ∨ ∃ e, r = .error e ∧ a.Ends s (.error e) u := by
  have ha := a.ends s
  cases hresult : (a.run s).result with
  | ok x =>
    rw [hresult] at ha
    have hf := ha.bind ((f x).ends (a.run s).state)
    obtain ⟨rfl, rfl⟩ := h.unique hf
    exact Or.inl ⟨x, _, ha, (f x).ends _⟩
  | error e =>
    rw [hresult] at ha
    obtain ⟨rfl, rfl⟩ := h.unique (ha.bind_error (f := f))
    exact Or.inr ⟨e, rfl, ha⟩

theorem Ends.of_bind_ok {a : Action ε σ α} {f : α → Action ε σ β} {s t u : σ} {x : α} {r : Except ε β}
    (ha : a.Ends s (.ok x) t) (h : (a >>= f).Ends s r u) : (f x).Ends t r u := by
  obtain ⟨rfl, rfl⟩ := h.unique (ha.bind ((f x).ends t))
  exact (f x).ends t

theorem Ends.of_map_ok {a : Action ε σ α} {f : α → β} {s t : σ} {y : β} (h : (f <$> a).Ends s (.ok y) t) :
    ∃ x, y = f x ∧ a.Ends s (.ok x) t := by
  rw [map_eq_pure_bind] at h
  rcases h.of_bind with ⟨x, u, ha, hpure⟩ | ⟨e, he, -⟩
  · obtain ⟨hresult, rfl⟩ := hpure.unique (pure_ends (f x) u)
    exact ⟨x, Except.ok.inj hresult, ha⟩
  · exact nomatch he

theorem Ends.of_map_error {a : Action ε σ α} {f : α → β} {s t : σ} {e : ε} (h : (f <$> a).Ends s (.error e) t) :
    a.Ends s (.error e) t := by
  rw [map_eq_pure_bind] at h
  rcases h.of_bind with ⟨x, u, -, hpure⟩ | ⟨e', he, ha⟩
  · exact nomatch (hpure.unique (pure_ends (f x) u)).1
  · rwa [Except.error.inj he]

theorem Ends.focus {a : Action ε τ α} (view : σ → τ) (put : τ → σ → σ) {s : σ} {t : τ} {r : Except ε α}
    (ha : a.Ends (view s) r t) : (a.focus view put).Ends s r (put t s) :=
  ⟨ha.1, congrArg (put · s) ha.2⟩

theorem Ends.whenPresent {a : Action ε σ α} {s t : σ} {r : Except ε α} (ha : a.Ends s r t) (absent : α) :
    (a.whenPresent absent).Ends (some s) r (some t) :=
  ⟨ha.1, congrArg some ha.2⟩

theorem Ends.mapError {a : Action ε σ α} {s t : σ} {r : Except ε α} (ha : a.Ends s r t) (f : ε → δ) :
    (a.mapError f).Ends s (r.mapError f) t :=
  ⟨congrArg (Except.mapError f) ha.1, ha.2⟩

/-- What ends a run that is attempted is a value. -/
theorem Ends.attempt {a : Action ε σ α} {s t : σ} {r : Except ε α} (ha : a.Ends s r t) :
    (a.attempt : Action δ σ (Except ε α)).Ends s (.ok r) t :=
  ⟨congrArg Except.ok ha.1, ha.2⟩

/-- However the run ends, the two states are related. -/
def Keeps (R : σ → σ → Prop) (a : Action ε σ α) : Prop := ∀ s, R s (a.run s).state

theorem Keeps.of_ends {R : σ → σ → Prop} {a : Action ε σ α} (ha : a.Keeps R) {s t : σ} {r : Except ε α}
    (h : a.Ends s r t) : R s t :=
  h.2 ▸ ha s

section

variable {R : σ → σ → Prop} [Std.Refl R]

theorem Keeps.pure (x : α) : (Pure.pure x : Action ε σ α).Keeps R := fun s => Std.Refl.refl s

theorem Keeps.get : (MonadState.get : Action ε σ σ).Keeps R := fun s => Std.Refl.refl s

theorem Keeps.note (level : Level) (message : String) : (Action.note level message : Action ε σ Unit).Keeps R :=
  fun s => Std.Refl.refl s

theorem Keeps.raise (f : Fatal) : (Action.raise f : Action Fatal σ α).Keeps R := fun s => Std.Refl.refl s

theorem Keeps.orRaise (toFatal : δ → Fatal) (x : Except δ α) :
    (Action.orRaise toFatal x : Action Fatal σ α).Keeps R := by
  cases x with
  | ok x => exact Keeps.pure x
  | error e => exact Keeps.raise (toFatal e)

end

theorem Keeps.bind {R : σ → σ → Prop} [Trans R R R] {a : Action ε σ α} {f : α → Action ε σ β} (ha : a.Keeps R)
    (hf : ∀ x, (f x).Keeps R) : (a >>= f).Keeps R := by
  intro s
  rcases ((a >>= f).ends s).of_bind with ⟨x, t, hat, hft⟩ | ⟨e, -, hat⟩
  · exact Trans.trans (ha.of_ends hat) ((hf x).of_ends hft)
  · exact ha.of_ends hat

theorem Keeps.map {R : σ → σ → Prop} {a : Action ε σ α} (ha : a.Keeps R) (f : α → β) : (f <$> a).Keeps R := by
  intro s
  rw [((a.ends s).map f).2]
  exact ha s

theorem Keeps.mono {R Q : σ → σ → Prop} {a : Action ε σ α} (ha : a.Keeps R) (h : ∀ s t, R s t → Q s t) : a.Keeps Q :=
  fun s => h s _ (ha s)

/-- If the run is given up, it is with such an error. -/
def Raises (P : ε → Prop) (a : Action ε σ α) : Prop := ∀ s e t, a.Ends s (.error e) t → P e

section

variable {P : ε → Prop}

theorem Raises.of_ok {a : Action ε σ α} (ha : ∀ s, ∃ x t, a.Ends s (.ok x) t) : a.Raises P := by
  intro s e t hends
  obtain ⟨x, u, hok⟩ := ha s
  exact absurd (hends.unique hok).1 (by simp)

theorem Raises.pure (x : α) : (Pure.pure x : Action ε σ α).Raises P := .of_ok fun s => ⟨x, s, pure_ends x s⟩

theorem Raises.get : (MonadState.get : Action ε σ σ).Raises P := .of_ok fun s => ⟨s, s, get_ends s⟩

theorem Raises.bind {a : Action ε σ α} {f : α → Action ε σ β} (ha : a.Raises P) (hf : ∀ x, (f x).Raises P) :
    (a >>= f).Raises P := by
  intro s e t hends
  rcases hends.of_bind with ⟨x, u, -, hrest⟩ | ⟨e', he, hfirst⟩
  · exact hf x u e t hrest
  · obtain rfl := Except.error.inj he
    exact ha s e t hfirst

theorem Raises.orRaise {P : Fatal → Prop} (toFatal : δ → Fatal) (x : Except δ α) (h : ∀ e, x = .error e → P (toFatal e)) :
    (Action.orRaise toFatal x : Action Fatal σ α).Raises P := by
  intro s e t hends
  have hrun := (hends.unique (orRaise_ends toFatal x s)).1
  cases x with
  | ok x => exact nomatch (show Except.error e = Except.ok x from hrun)
  | error d =>
    obtain rfl := Except.error.inj hrun
    exact h d rfl

end

end KnownObjects.Action
