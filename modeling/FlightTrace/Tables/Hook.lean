import FlightTrace.Error

/-! Hooks. A change of a table is first shown to a hook, which may refuse it, and is made only after
the hook has agreed. A hook may also crash, which no caller is told of; the change is not made then. -/
namespace FlightTrace

/-- Why a change was not made. Crashes are of type `κ`, which is empty for hooks that never crash. -/
inductive Failure (κ : Type) where
  | error (e : Error)
  | crash (k : κ)

def Failure.toError : Failure Empty → Error
  | error e => e

/-- A hook works on a state of its own. -/
abbrev Hook (κ σ : Type) := σ → Except (Failure κ) Unit × σ

namespace Hook

variable {κ σ τ : Type}

def agree : Hook κ σ := fun s => (.ok (), s)

/-- A hook beside something that it does not touch. -/
def beside (hook : Hook κ σ) : Hook κ (σ × τ) := fun (s, t) =>
  let (r, s) := hook s
  (r, s, t)

end Hook
end FlightTrace
