import FlightTrace.Observation

/-! Tracks: the traces of one aircraft in the order of time. Most of them repeat what is known; a track
is thinned out by keeping the first trace, the last, and those in which the callsign or the squawk
changes. What a trace leaves out is filled in from earlier ones. -/
namespace FlightTrace
namespace Track

structure Compactor where
  callsign : Option Callsign := none
  squawk : Option Squawk := none
  started : Bool := false
  /-- The last trace, if it was not kept. -/
  held : Option Trace := none
deriving DecidableEq

namespace Compactor

def changes {α : Type} [DecidableEq α] (known new : Option α) : Bool := new.isSome && new ≠ known

/-- Takes in a trace, and gives it back, filled in, if it is to be kept. -/
def push (c : Compactor) (t : Trace) : Option Trace × Compactor :=
  let callsign := t.callsign.or c.callsign
  let squawk := t.squawk.or c.squawk
  let filled := { t with callsign, squawk }
  if !c.started || changes c.callsign t.callsign || changes c.squawk t.squawk then
    (some filled, ⟨callsign, squawk, true, none⟩)
  else (none, ⟨callsign, squawk, true, some filled⟩)

def finish (c : Compactor) : Option Trace := c.held

def run (c : Compactor) : List Trace → List Trace
  | [] => c.finish.toList
  | t :: ts =>
    let (kept, c) := c.push t
    kept.toList ++ c.run ts

end Compactor

def compact (ts : List Trace) : List Trace := ({} : Compactor).run ts

def sortByTime (ts : List Trace) : List Trace :=
  ts.mergeSort fun a b => (compare a.time b.time).isLE

/-- The first trace of another aircraft than the first. -/
def stranger? : List Trace → Option (Address × Address)
  | [] => none
  | t :: ts => (ts.find? fun u => u.address ≠ t.address).map fun u => (t.address, u.address)

/-- The track of some observations. All must be sound and of one aircraft. -/
def validate (os : List Observation) : Except RecordFault (List Trace) := do
  let ts ← os.mapM Observation.toTrace
  match stranger? ts with
  | some (a, b) => throw (.mixedTrack a b)
  | none => return sortByTime ts

end Track
end FlightTrace
