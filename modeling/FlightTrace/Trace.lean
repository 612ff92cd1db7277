import FlightTrace.Identifier.Address
import FlightTrace.Identifier.Callsign
import FlightTrace.Identifier.SourceTag
import FlightTrace.Identifier.Squawk
import FlightTrace.Instant

/-! A trace is what was observed of one aircraft at one instant. What was not observed is left out. -/
namespace FlightTrace

structure Trace where
  time : Instant
  address : Address
  callsign : Option Callsign := none
  squawk : Option Squawk := none
  source : Option SourceTag := none
deriving DecidableEq

end FlightTrace
