import FlightTrace.Trace

/-! Access paths: the ways in which traces can be looked up. -/
namespace FlightTrace

inductive AccessPath where
  | time
  | address (a : Address)
  | callsign (c : Callsign)
  | squawk (c : Squawk)
deriving DecidableEq

namespace AccessPath

def text : AccessPath → String
  | time => "time"
  | address a => s!"identity {a.text}"
  | callsign c => s!"callsign {c.text}"
  | squawk c => s!"squawk {c.text}"

/-- Whether a path leads to a trace. A trace without a callsign or squawk is on no such path. -/
def matchesTrace : AccessPath → Trace → Bool
  | time, _ => true
  | address a, t => t.address = a
  | callsign c, t => t.callsign = some c
  | squawk c, t => t.squawk = some c

end AccessPath
end FlightTrace
