import KnownObjects.Proofs.Endings

/-!
# Runs in step

Two runs are coupled when, from related states, they end in related states, both with a result or both with an error, and the results or errors are related too. Coupled parts make coupled wholes: there is one lemma for each way to build a run. What the two runs log may differ.
-/

namespace KnownObjects

/-- Both are results that are related, or both are errors that are related. -/
inductive Except.Matched {ε δ α β : Type} (E : ε → δ → Prop) (R : α → β → Prop) : Except ε α → Except δ β → Prop
  | ok {x : α} {y : β} : R x y → Matched E R (.ok x) (.ok y)
  | error {e : ε} {d : δ} : E e d → Matched E R (.error e) (.error d)

namespace Except.Matched

variable {ε δ α β γ η : Type} {E : ε → δ → Prop} {R : α → β → Prop} {S : γ → η → Prop}

theorem refl (x : Except ε α) : Matched Eq Eq x x := by
  cases x with
  | ok a => exact .ok rfl
  | error e => exact .error rfl

theorem eq {x y : Except ε α} (h : Matched Eq Eq x y) : x = y := by
  cases h with
  | ok h => exact congrArg Except.ok h
  | error h => exact congrArg Except.error h

theorem mono {S : α → β → Prop} {x : Except ε α} {y : Except δ β} (h : Matched E R x y) (hRS : ∀ a b, R a b → S a b) :
    Matched E S x y := by
  cases h with
  | ok h => exact .ok (hRS _ _ h)
  | error h => exact .error h

theorem ok_or_error {x : Except ε α} {y : Except δ β} (h : Matched E R x y) :
    (∃ a b, x = .ok a ∧ y = .ok b ∧ R a b) ∨ ∃ e d, x = .error e ∧ y = .error d ∧ E e d := by
  cases h with
  | ok h => exact Or.inl ⟨_, _, rfl, rfl, h⟩
  | error h => exact Or.inr ⟨_, _, rfl, rfl, h⟩

theorem bind {x : Except ε α} {y : Except δ β} {f : α → Except ε γ} {g : β → Except δ η} (h : Matched E R x y)
    (hnext : ∀ a b, R a b → Matched E S (f a) (g b)) : Matched E S (x >>= f) (y >>= g) := by
  cases h with
  | ok h => exact hnext _ _ h
  | error h => exact .error h

theorem bind_eq {x : Except ε α} {y : Except δ α} {f : α → Except ε γ} {g : α → Except δ η} (h : Matched E Eq x y)
    (hnext : ∀ a, Matched E S (f a) (g a)) : Matched E S (x >>= f) (y >>= g) :=
  h.bind fun a _ hab => hab ▸ hnext a

theorem bind_map {x : Except ε α} {y : Except δ β} {f : α → Except ε γ} {g : β → Except δ η} {r : α → β}
    (h : Matched E (fun a b => b = r a) x y) (hnext : ∀ a, Matched E S (f a) (g (r a))) :
    Matched E S (x >>= f) (y >>= g) :=
  h.bind fun a _ hab => hab ▸ hnext a

end Except.Matched

namespace Action

variable {ε δ σ τ α β γ η : Type}

/-- Started in related states, the two runs keep in step. -/
def Coupled (P : σ → τ → Prop) (E : ε → δ → Prop) (R : α → β → Prop) (a : Action ε σ α) (b : Action δ τ β) : Prop :=
  ∀ s t, P s t → Except.Matched E R (a.run s).result (b.run t).result ∧ P (a.run s).state (b.run t).state

namespace Coupled

variable {P : σ → τ → Prop} {E : ε → δ → Prop} {R : α → β → Prop} {S : γ → η → Prop}

theorem mono {S : α → β → Prop} {a : Action ε σ α} {b : Action δ τ β} (h : Coupled P E R a b)
    (hRS : ∀ x y, R x y → S x y) : Coupled P E S a b :=
  fun s t hs => ⟨(h s t hs).1.mono hRS, (h s t hs).2⟩

theorem pure {x : α} {y : β} (h : R x y) : Coupled P E R (Pure.pure x) (Pure.pure y) := fun _ _ hs => ⟨.ok h, hs⟩

/-- A run in step with one that does nothing comes to its end. -/
theorem exists_ends {a : Action ε σ α} {y : β} (h : Coupled P E R a (Pure.pure y)) {s : σ} {t : τ} (hs : P s t) :
    ∃ x u, a.Ends s (.ok x) u ∧ R x y ∧ P u t := by
  obtain ⟨hresult, hstate⟩ := h s t hs
  rcases hresult.ok_or_error with ⟨x, _, hx, hy, hxy⟩ | ⟨_, _, -, hd, -⟩
  · obtain rfl := Except.ok.inj hy
    exact ⟨x, _, ⟨hx, rfl⟩, hxy, hstate⟩
  · cases hd

theorem get : Coupled P E P MonadState.get MonadState.get := fun _ _ hs => ⟨.ok hs, hs⟩

theorem set {s : σ} {t : τ} (h : P s t) : Coupled P E Eq (MonadStateOf.set s) (MonadStateOf.set t) :=
  fun _ _ _ => ⟨.ok rfl, h⟩

theorem modify {f : σ → σ} {g : τ → τ} (h : ∀ s t, P s t → P (f s) (g t)) :
    Coupled P E Eq (modify f) (modify g) :=
  fun s t hs => ⟨.ok rfl, h s t hs⟩

theorem note (level : Level) (message other : String) :
    Coupled P E Eq (Action.note level message) (Action.note level other) :=
  fun _ _ hs => ⟨.ok rfl, hs⟩

theorem noteAll (records other : List LogRecord) :
    Coupled P E Eq (Action.noteAll records) (Action.noteAll other) :=
  fun _ _ hs => ⟨.ok rfl, hs⟩

theorem bind {a : Action ε σ α} {b : Action δ τ β} {f : α → Action ε σ γ} {g : β → Action δ τ η}
    (h : Coupled P E R a b) (hnext : ∀ x y, R x y → Coupled P E S (f x) (g y)) : Coupled P E S (a >>= f) (b >>= g) := by
  intro s t hs
  have hrun := h s t hs
  rcases hfirst : a.run s with ⟨x, s, log⟩
  rcases hsecond : b.run t with ⟨y, t, other⟩
  rw [hfirst, hsecond] at hrun
  rw [run_bind, run_bind, hfirst, hsecond]
  obtain ⟨hresult, hstate⟩ := hrun
  cases hresult with
  | ok hxy => exact hnext _ _ hxy _ _ hstate
  | error he => exact ⟨.error he, hstate⟩

theorem bind_eq {a : Action ε σ α} {b : Action δ τ α} {f : α → Action ε σ γ} {g : α → Action δ τ η}
    (h : Coupled P E Eq a b) (hnext : ∀ x, Coupled P E S (f x) (g x)) : Coupled P E S (a >>= f) (b >>= g) :=
  h.bind fun x _ hxy => hxy ▸ hnext x

theorem bind_map {a : Action ε σ α} {b : Action δ τ β} {f : α → Action ε σ γ} {g : β → Action δ τ η} {r : α → β}
    (h : Coupled P E (fun x y => y = r x) a b) (hnext : ∀ x, Coupled P E S (f x) (g (r x))) :
    Coupled P E S (a >>= f) (b >>= g) :=
  h.bind fun x _ hxy => hxy ▸ hnext x

theorem map {a : Action ε σ α} {b : Action δ τ β} {f : α → γ} {g : β → η} (h : Coupled P E R a b)
    (hmap : ∀ x y, R x y → S (f x) (g y)) : Coupled P E S (f <$> a) (g <$> b) := by
  rw [map_eq_pure_bind, map_eq_pure_bind]
  exact h.bind fun x y hxy => .pure (hmap x y hxy)

end Coupled

theorem Coupled.raise {P : σ → τ → Prop} {R : α → β → Prop} (f : Fatal) :
    Coupled P Eq R (Action.raise f) (Action.raise f) :=
  fun _ _ hs => ⟨.error rfl, hs⟩

theorem Coupled.orRaise {ε' δ' : Type} {P : σ → τ → Prop} {E : Fatal → Fatal → Prop} {D : ε' → δ' → Prop}
    {R : α → β → Prop} {f : ε' → Fatal} {g : δ' → Fatal} {x : Except ε' α} {y : Except δ' β}
    (h : Except.Matched D R x y) (herror : ∀ e d, D e d → E (f e) (g d)) :
    Coupled P E R (Action.orRaise f x) (Action.orRaise g y) := by
  cases h with
  | ok h => exact .pure h
  | error h => exact fun _ _ hs => ⟨.error (herror _ _ h), hs⟩

theorem Coupled.orRaise_self {ε' : Type} {P : σ → τ → Prop} (f : ε' → Fatal) (x : Except ε' α) :
    Coupled P Eq Eq (Action.orRaise f x) (Action.orRaise f x) :=
  Coupled.orRaise (.refl x) fun _ _ h => congrArg f h

/-! ### Runs over a part of the state -/

section

variable {σ' τ' : Type} {P : σ → τ → Prop} {Q : σ' → τ' → Prop} {E : ε → δ → Prop} {R : α → β → Prop}

theorem Coupled.focus {a : Action ε σ' α} {b : Action δ τ' β} (h : Coupled Q E R a b) {view : σ → σ'} {view' : τ → τ'}
    {put : σ' → σ → σ} {put' : τ' → τ → τ} (hview : ∀ s t, P s t → Q (view s) (view' t))
    (hput : ∀ s t x y, P s t → Q x y → P (put x s) (put' y t)) :
    Coupled P E R (a.focus view put) (b.focus view' put') := by
  intro s t hs
  obtain ⟨hresult, hstate⟩ := h _ _ (hview s t hs)
  exact ⟨hresult, hput s t _ _ hs hstate⟩

theorem Coupled.whenPresent {a : Action ε σ α} {b : Action δ τ β} (h : Coupled P E R a b) {x : α} {y : β} (hxy : R x y) :
    Coupled (Option.Rel P) E R (a.whenPresent x) (b.whenPresent y) := by
  intro s t hs
  cases hs with
  | none => exact ⟨.ok hxy, .none⟩
  | some hs =>
    obtain ⟨hresult, hstate⟩ := h _ _ hs
    exact ⟨hresult, .some hstate⟩

end

section

variable {P : σ → τ → Prop} {E : ε → δ → Prop} {R : α → β → Prop}

theorem Coupled.mapError {ε' δ' : Type} {D : ε' → δ' → Prop} {a : Action ε σ α} {b : Action δ τ β} {f : ε → ε'}
    {g : δ → δ'} (h : Coupled P E R a b) (hmap : ∀ e d, E e d → D (f e) (g d)) :
    Coupled P D R (a.mapError f) (b.mapError g) := by
  intro s t hs
  obtain ⟨hresult, hstate⟩ := h s t hs
  refine ⟨?_, hstate⟩
  rcases hresult.ok_or_error with ⟨x, y, hx, hy, hxy⟩ | ⟨e, d, he, hd, hed⟩
  · rw [run_mapError, run_mapError, hx, hy]
    exact .ok hxy
  · rw [run_mapError, run_mapError, he, hd]
    exact .error (hmap e d hed)

theorem Coupled.attempt {ε' δ' : Type} {D : ε' → δ' → Prop} {a : Action ε σ α} {b : Action δ τ β} (h : Coupled P E R a b) :
    Coupled P D (Except.Matched E R) (a.attempt : Action ε' σ _) (b.attempt : Action δ' τ _) :=
  fun s t hs => ⟨.ok (h s t hs).1, (h s t hs).2⟩

/-- A run in step with one that does nothing may as well be tried. -/
theorem Coupled.attempt_of_pure {ε' : Type} {D : ε' → δ → Prop} {a : Action ε σ α} {y : β} (h : Coupled P E R a (Pure.pure y)) :
    Coupled P D (fun r z => ∃ x, r = .ok x ∧ R x z) (a.attempt : Action ε' σ _) (Pure.pure y : Action δ τ β) := by
  intro s t hs
  obtain ⟨x, u, hends, hxy, hu⟩ := h.exists_ends hs
  exact ⟨.ok ⟨x, hends.1, hxy⟩, hends.2 ▸ hu⟩

theorem Coupled.mapM {f : γ → Action ε σ α} {g : γ → Action δ τ α} (h : ∀ x, Coupled P E Eq (f x) (g x)) (l : List γ) :
    Coupled P E Eq (l.mapM f) (l.mapM g) := by
  induction l with
  | nil => exact .pure rfl
  | cons x l ih =>
    rw [List.mapM_cons, List.mapM_cons]
    exact (h x).bind_eq fun _ => ih.bind_eq fun _ => .pure rfl

end

end Action

end KnownObjects
