import KnownObjects.Table

/-!
# Compilations

A compilation owns a table for as long as its pass runs. A fatal error inside the pass ends this compilation and discards its table; nothing else is affected, and whoever started the compilation gets the error as a value.
-/

namespace KnownObjects.Compilation

structure Aborted where
  id : Nat
  cause : Fatal
deriving DecidableEq

private def title (id : Nat) : String := "compilation " ++ toString id

def Aborted.message (a : Aborted) : String := title a.id ++ " aborted: " ++ a.cause.message

variable {ε σ α : Type}

/-- Announces a compilation over a table of a given role. -/
def announce (id : Nat) (role : Role) : Action ε σ Unit :=
  .note .debug (title id ++ " created (" ++ role.text ++ " table)")

/-- Ends a compilation: keeps the table if the pass ran to its end, and discards it otherwise. -/
def conclude (id : Nat) (endIndex : σ → Index) (discard : Action ε σ Unit) :
    Except Fatal α → Action ε σ (Except Aborted α)
  | .ok x => do
    .note .debug (title id ++ " finished with " ++ (endIndex (← get)).text ++ " known objects")
    return .ok x
  | .error cause => do
    .note .warn (title id ++ " aborted, dropping its known object table")
    discard
    return .error ⟨id, cause⟩

/-- Runs a pass from the announcement to the end. -/
def run (id : Nat) (role : Role) (endIndex : σ → Index) (discard : Action ε σ Unit)
    (pass : Action Fatal σ α) : Action ε σ (Except Aborted α) := do
  announce id role
  conclude id endIndex discard (← pass.attempt)

end KnownObjects.Compilation
