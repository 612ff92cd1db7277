import FlightTrace.Tables.Trace

/-! Searches: traces in a range of time that carry any of the keys that are asked for, or all traces in
the range when no key is. All lookups of one search see the same records. -/
namespace FlightTrace

structure SearchQuery where
  range : TimeRange := .all
  addresses : List Address := []
  callsigns : List Callsign := []
  squawks : List Squawk := []
deriving DecidableEq

namespace SearchQuery

def hasKeys (q : SearchQuery) : Bool :=
  !(q.addresses.isEmpty && q.callsigns.isEmpty && q.squawks.isEmpty)

def addAddress (q : SearchQuery) (a : Address) : SearchQuery := { q with addresses := q.addresses ++ [a] }

def addCallsign (q : SearchQuery) (c : Callsign) : SearchQuery :=
  { q with callsigns := q.callsigns ++ [c] }

def addSquawk (q : SearchQuery) (c : Squawk) : SearchQuery := { q with squawks := q.squawks ++ [c] }

def paths (q : SearchQuery) : List AccessPath :=
  if q.hasKeys then
    q.addresses.map .address ++ q.callsigns.map .callsign ++ q.squawks.map .squawk
  else [.time]

end SearchQuery

namespace TraceTables

/-- The traces that a search finds, each once, in the order of time and arrival. -/
def search (t : TraceTables) (q : SearchQuery) (cancelled : Nat → Bool) : Except Error (List Trace) :=
  if cancelled 0 then .error .cancelled
  else
    let s := t.beginScan cancelled
    let p := q.paths.foldl (fun p path => t.scan s q.range p path) {}
    match p.stop with
    | some e => .error e
    | none => .ok (t.resolve (OrderedSet.ofList p.found).toList)

end TraceTables
end FlightTrace
