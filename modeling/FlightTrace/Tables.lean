import FlightTrace.Enrichment
import FlightTrace.Tables.Metadata
import FlightTrace.Tables.Trace

/-! The tables of one store. -/
namespace FlightTrace

structure Tables where
  traces : TraceTables
  catalog : Catalog := {}
  tags : Tags := {}
  metadata : Metadata := {}

namespace Tables

def ofSettings (settings : Settings) : Tables where
  traces := .ofSettings settings

def enrich (t : Tables) (rs : List Trace) : List EnrichedTrace :=
  Enrichment.enrich t.catalog t.tags rs

end Tables
end FlightTrace
