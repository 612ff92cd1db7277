import FlightTrace.Identifier.RecordId
import FlightTrace.TimeRange

/-! Index keys: the time of a record, and its number to keep records of one time in the order of
arrival. A range of time becomes a range of keys by the least and the greatest number. -/
namespace FlightTrace
namespace Index

structure Key where
  time : Instant
  id : RecordId
deriving DecidableEq

namespace Key

instance : Ord Key := ⟨compareLex (compareOn time) (compareOn id)⟩

instance : Std.TransOrd Key :=
  inferInstanceAs (Std.TransCmp (compareLex (compareOn time) (compareOn id)))

instance : Std.LawfulEqOrd Key :=
  Order.lawfulEq_compareLex fun a b h₁ h₂ => by cases a; cases b; simp_all

end Key

structure KeyRange where
  lower : Bound Key
  upper : Bound Key
deriving DecidableEq

namespace KeyRange

def lowerOf : Bound Instant → Bound Key
  | .unbounded => .unbounded
  | .included t => .included ⟨t, .min⟩
  | .excluded t => .excluded ⟨t, .max⟩

def upperOf : Bound Instant → Bound Key
  | .unbounded => .unbounded
  | .included t => .included ⟨t, .max⟩
  | .excluded t => .excluded ⟨t, .min⟩

/-- The keys of a range of time. An empty range has none. -/
def ofTimeRange? (r : TimeRange) : Option KeyRange :=
  if r.isEmpty then none else some ⟨lowerOf r.lower, upperOf r.upper⟩

def contains (r : KeyRange) (k : Key) : Bool := r.lower.admitsAbove k && r.upper.admitsBelow k

end KeyRange
end Index
end FlightTrace
