import FlightTrace.Tables.Trace

/-! Sightings: when each aircraft was first and last among some traces, and in how many. -/
namespace FlightTrace

structure Sighting where
  address : Address
  firstSeen : Instant
  lastSeen : Instant
  observations : Nat
deriving DecidableEq

namespace Sighting

def ofTrace (t : Trace) : Sighting := ⟨t.address, t.time, t.time, 1⟩

def extend (s : Sighting) (t : Trace) : Sighting :=
  { s with lastSeen := t.time, observations := s.observations + 1 }

def count (m : OrderedMap Address Sighting) (t : Trace) : OrderedMap Address Sighting :=
  m.insert t.address (match m.get? t.address with
    | some s => s.extend t
    | none => ofTrace t)

def comesBefore (a b : Sighting) : Bool :=
  ((compare a.firstSeen b.firstSeen).then (compare a.address b.address)).isLE

def ofTraces (ts : List Trace) : List Sighting :=
  ((ts.foldl count ∅).toList.map (·.2)).mergeSort comesBefore

end Sighting

def TraceTables.sightings (t : TraceTables) (path : AccessPath) (cancelled : Nat → Bool) :
    Except Error (List Sighting) :=
  (t.query path .all cancelled).map Sighting.ofTraces

end FlightTrace
