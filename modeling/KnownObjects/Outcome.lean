/-!
# Runs that keep a log and can be given up

A run starts from a state and leaves an outcome: its result or the error that ended it, the state it ended in, and the records it logged. The state and the log outlive an error. What a run did before it was given up stays done, so a caller that catches the error goes on from there.
-/

namespace KnownObjects

inductive Level where
  | error
  | warn
  | info
  | debug
  | trace
deriving DecidableEq

namespace Level

def text : Level → String
  | error => "ERROR"
  | warn => "WARN"
  | info => "INFO"
  | debug => "DEBUG"
  | trace => "TRACE"

/-- How many levels are at least as grave. -/
def rank : Level → Nat
  | error => 1
  | warn => 2
  | info => 3
  | debug => 4
  | trace => 5

end Level

structure LogRecord where
  level : Level
  message : String
deriving DecidableEq

def LogRecord.text (r : LogRecord) : String := r.level.text ++ " " ++ r.message

structure Outcome (ε σ α : Type) where
  result : Except ε α
  state : σ
  log : List LogRecord

/-- A run over a state of type `σ` that ends with an `α` or is given up with an `ε`. -/
def Action (ε σ α : Type) : Type := σ → Outcome ε σ α

/-- Sees the state left by a run as a state of another type. -/
def Outcome.mapState {ε σ τ α : Type} (f : σ → τ) (o : Outcome ε σ α) : Outcome ε τ α :=
  ⟨o.result, f o.state, o.log⟩

namespace Action

variable {ε δ σ τ α β : Type}

def run (a : Action ε σ α) (s : σ) : Outcome ε σ α := a s

instance : Monad (Action ε σ) where
  pure x := fun s => ⟨.ok x, s, []⟩
  bind a f := fun s =>
    match a s with
    | ⟨.ok x, t, log⟩ =>
      let rest := f x t
      ⟨rest.result, rest.state, log ++ rest.log⟩
    | ⟨.error e, t, log⟩ => ⟨.error e, t, log⟩

instance : MonadStateOf σ (Action ε σ) where
  get := fun s => ⟨.ok s, s, []⟩
  set s := fun _ => ⟨.ok (), s, []⟩
  modifyGet f := fun s => ⟨.ok (f s).1, (f s).2, []⟩

instance : MonadExceptOf ε (Action ε σ) where
  throw e := fun s => ⟨.error e, s, []⟩
  tryCatch a handle := fun s =>
    match a s with
    | ⟨.ok x, t, log⟩ => ⟨.ok x, t, log⟩
    | ⟨.error e, t, log⟩ =>
      let rest := handle e t
      ⟨rest.result, rest.state, log ++ rest.log⟩

def note (level : Level) (message : String) : Action ε σ Unit :=
  fun s => ⟨.ok (), s, [⟨level, message⟩]⟩

def noteAll (records : List LogRecord) : Action ε σ Unit := fun s => ⟨.ok (), s, records⟩

/-- Turns the error of a run into a value, so that the run cannot be given up. -/
def attempt (a : Action ε σ α) : Action δ σ (Except ε α) := fun s =>
  let o := a s
  ⟨.ok o.result, o.state, o.log⟩

/-- Runs over one part of the state and puts what is left of that part back, also after an error. -/
def focus (view : σ → τ) (put : τ → σ → σ) (a : Action ε τ α) : Action ε σ α := fun s =>
  let o := a (view s)
  ⟨o.result, put o.state s, o.log⟩

/-- Runs over a state that may be missing; then the answer is `absent`. -/
def whenPresent (absent : α) (a : Action ε σ α) : Action ε (Option σ) α
  | some s =>
    let o := a s
    ⟨o.result, some o.state, o.log⟩
  | none => ⟨.ok absent, none, []⟩

def mapError (f : ε → δ) (a : Action ε σ α) : Action δ σ α := fun s =>
  let o := a s
  ⟨o.result.mapError f, o.state, o.log⟩

@[simp] theorem run_pure (x : α) (s : σ) : (pure x : Action ε σ α).run s = ⟨.ok x, s, []⟩ := rfl

@[simp] theorem run_get (s : σ) : (get : Action ε σ σ).run s = ⟨.ok s, s, []⟩ := rfl

@[simp] theorem run_set (s t : σ) : (set t : Action ε σ PUnit).run s = ⟨.ok (), t, []⟩ := rfl

@[simp] theorem run_modify (f : σ → σ) (s : σ) :
    (modify f : Action ε σ PUnit).run s = ⟨.ok (), f s, []⟩ := rfl

@[simp] theorem run_throw (e : ε) (s : σ) : (throw e : Action ε σ α).run s = ⟨.error e, s, []⟩ := rfl

@[simp] theorem run_note (level : Level) (message : String) (s : σ) :
    (note level message : Action ε σ Unit).run s = ⟨.ok (), s, [⟨level, message⟩]⟩ := rfl

@[simp] theorem run_noteAll (records : List LogRecord) (s : σ) :
    (noteAll records : Action ε σ Unit).run s = ⟨.ok (), s, records⟩ := rfl

@[simp] theorem run_attempt (a : Action ε σ α) (s : σ) :
    (a.attempt : Action δ σ (Except ε α)).run s = ⟨.ok (a.run s).result, (a.run s).state, (a.run s).log⟩ :=
  rfl

@[simp] theorem run_focus (view : σ → τ) (put : τ → σ → σ) (a : Action ε τ α) (s : σ) :
    (a.focus view put).run s =
      ⟨(a.run (view s)).result, put (a.run (view s)).state s, (a.run (view s)).log⟩ := rfl

@[simp] theorem run_mapError (f : ε → δ) (a : Action ε σ α) (s : σ) :
    (a.mapError f).run s = ⟨(a.run s).result.mapError f, (a.run s).state, (a.run s).log⟩ := rfl

theorem run_bind (a : Action ε σ α) (f : α → Action ε σ β) (s : σ) :
    (a >>= f).run s =
      match a.run s with
      | ⟨.ok x, t, log⟩ => ⟨((f x).run t).result, ((f x).run t).state, log ++ ((f x).run t).log⟩
      | ⟨.error e, t, log⟩ => ⟨.error e, t, log⟩ := rfl

theorem run_bind_ok {a : Action ε σ α} {f : α → Action ε σ β} {s t : σ} {x : α}
    {log : List LogRecord} (h : a.run s = ⟨.ok x, t, log⟩) :
    (a >>= f).run s = ⟨((f x).run t).result, ((f x).run t).state, log ++ ((f x).run t).log⟩ := by
  have h' : a s = ⟨.ok x, t, log⟩ := h
  simp [run, bind, h']

theorem run_bind_error {a : Action ε σ α} {f : α → Action ε σ β} {s t : σ} {e : ε}
    {log : List LogRecord} (h : a.run s = ⟨.error e, t, log⟩) :
    (a >>= f).run s = ⟨.error e, t, log⟩ := by
  have h' : a s = ⟨.error e, t, log⟩ := h
  simp [run, bind, h']

instance : LawfulMonad (Action ε σ) := LawfulMonad.mk' (Action ε σ)
  (by
    intro α a
    funext s
    show (match a s with
      | ⟨.ok x, t, log⟩ => (⟨.ok x, t, log ++ []⟩ : Outcome ε σ α)
      | ⟨.error e, t, log⟩ => ⟨.error e, t, log⟩) = a s
    match a s with
    | ⟨.ok x, t, log⟩ => simp
    | ⟨.error e, t, log⟩ => rfl)
  (by
    intro α β x f
    funext s
    simp [bind, pure])
  (by
    intro α β γ a f g
    funext s
    simp only [bind]
    match a s with
    | ⟨.error e, t, log⟩ => rfl
    | ⟨.ok x, t, log⟩ =>
      simp only
      match f x t with
      | ⟨.error e, u, log'⟩ => rfl
      | ⟨.ok y, u, log'⟩ => simp [List.append_assoc])

end Action

end KnownObjects
