import FlightTrace.Identifier.Reading
import FlightTrace.Trace

/-! Observations as a feed delivers them, and what makes them traces. -/
namespace FlightTrace

structure Observation where
  time : Instant
  address : { n : Nat // n < 0x100000000 }
  callsign : Option String := none
  squawk : Option String := none
  source : Option Char := none
deriving DecidableEq

namespace Observation

def optionally {ε α β : Type} (f : α → Except ε β) : Option α → Except ε (Option β)
  | none => .ok none
  | some a => (f a).map some

/-- The trace of an observation. Of several faults that of the address comes first, then that of the squawk.
A blank callsign is none. -/
def toTrace (o : Observation) : Except RecordFault Trace := do
  let address ← Address.ofNat o.address
  let squawk ← optionally Squawk.ofText o.squawk
  let source ← optionally SourceTag.ofChar o.source
  return { time := o.time, address, callsign := o.callsign.bind Callsign.ofText?, squawk, source }

end Observation
end FlightTrace
