import FlightTrace.Instant

/-! Ranges of time. Each end is open, closed or missing; a range whose ends are the wrong way round
holds nothing. -/
namespace FlightTrace

inductive Bound (α : Type) where
  | unbounded
  | included (a : α)
  | excluded (a : α)
deriving DecidableEq

namespace Bound

variable {α : Type} [Ord α]

/-- Whether a value lies on the right side of a lower end. -/
def admitsAbove : Bound α → α → Bool
  | unbounded, _ => true
  | included a, b => (compare a b).isLE
  | excluded a, b => (compare a b).isLT

def admitsBelow : Bound α → α → Bool
  | unbounded, _ => true
  | included a, b => (compare b a).isLE
  | excluded a, b => (compare b a).isLT

end Bound

structure TimeRange where
  lower : Bound Instant
  upper : Bound Instant
deriving DecidableEq

namespace TimeRange

/-- From the first instant up to but not including the second. -/
def between (a b : Instant) : TimeRange := ⟨.included a, .excluded b⟩

def inclusive (a b : Instant) : TimeRange := ⟨.included a, .included b⟩

def all : TimeRange := ⟨.unbounded, .unbounded⟩

def since (a : Instant) : TimeRange := ⟨.included a, .unbounded⟩

def before (b : Instant) : TimeRange := ⟨.unbounded, .excluded b⟩

/-- The millisecond that starts at an instant; at the end of time, the instant alone. -/
def moment (t : Instant) : TimeRange :=
  match t.plusMilli? with
  | some u => between t u
  | none => inclusive t t

def isEmpty (r : TimeRange) : Bool :=
  match r.lower, r.upper with
  | .included a, .included b => (compare a b).isGT
  | .included a, .excluded b | .excluded a, .included b | .excluded a, .excluded b =>
    (compare a b).isGE
  | _, _ => false

def contains (r : TimeRange) (t : Instant) : Bool :=
  r.lower.admitsAbove t && r.upper.admitsBelow t

end TimeRange
end FlightTrace
