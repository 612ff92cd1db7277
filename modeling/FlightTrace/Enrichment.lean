import FlightTrace.Tables.Catalog
import FlightTrace.Tables.Tags
import FlightTrace.Trace

/-! Traces together with what the reference tables and the tags say about their aircraft. What was
looked up once for an aircraft is used for all its traces. -/
namespace FlightTrace

structure EnrichedTrace where
  trace : Trace
  info : Option AircraftInfo
  tags : OrderedSet String

namespace EnrichedTrace

def mark? (e : EnrichedTrace) : Option String := e.info.map (·.registration.mark)

end EnrichedTrace

namespace Enrichment

abbrev Known := OrderedMap Address (Option AircraftInfo × OrderedSet String)

def lookUp (c : Catalog) (t : Tags) (a : Address) : Option AircraftInfo × OrderedSet String :=
  (c.describe? a, t.tagsOf a)

def enrichFrom (c : Catalog) (t : Tags) (known : Known) : List Trace → List EnrichedTrace
  | [] => []
  | r :: rs =>
    match known.get? r.address with
    | some (info, tags) => ⟨r, info, tags⟩ :: enrichFrom c t known rs
    | none =>
      let (info, tags) := lookUp c t r.address
      ⟨r, info, tags⟩ :: enrichFrom c t (known.insert r.address (info, tags)) rs

def enrich (c : Catalog) (t : Tags) (rs : List Trace) : List EnrichedTrace := enrichFrom c t ∅ rs

end Enrichment
end FlightTrace
