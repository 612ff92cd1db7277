import FlightTrace.Aircraft
import FlightTrace.Config
import FlightTrace.Document.Identifier
import FlightTrace.Enrichment
import FlightTrace.Log.Entry
import FlightTrace.Observation
import FlightTrace.Search
import FlightTrace.Sighting

/-! Documents of records, rows, queries, log entries and configurations. -/
namespace FlightTrace

open Document Document.FieldReader

instance : Document Trace where
  toJson t := .ofFields [
    ("time", toJson t.time),
    ("icao_address", toJson t.address),
    ("callsign", .ofOption toJson t.callsign),
    ("squawk", .ofOption toJson t.squawk),
    ("data_source", .ofOption toJson t.source)]
  ofJson := read (Trace.mk <$> required "time" ofJson <*> required "icao_address" ofJson
    <*> optional "callsign" ofJson <*> optional "squawk" ofJson <*> optional "data_source" ofJson)

instance : Document Registration where
  toJson r := .ofFields [
    ("icao_address", toJson r.address),
    ("registration", .string r.mark),
    ("model", .ofOption toJson r.model)]
  ofJson := read (Registration.mk <$> required "icao_address" ofJson
    <*> required "registration" ofJson <*> optional "model" ofJson)

instance : Document AircraftModel where
  toJson m := .ofFields [
    ("icao_code", .string m.code),
    ("name", .ofOption toJson m.name),
    ("description", .ofOption toJson m.description),
    ("wtc", .ofOption toJson m.wake)]
  ofJson := read (AircraftModel.mk <$> required "icao_code" ofJson <*> optional "name" ofJson
    <*> optional "description" ofJson <*> optional "wtc" ofJson)

instance : Document AircraftInfo where
  toJson i := .ofFields [
    ("registration", toJson i.registration), ("model", .ofOption toJson i.model)]
  ofJson := read (AircraftInfo.mk <$> required "registration" ofJson <*> optional "model" ofJson)

instance : Document Observation where
  toJson o := .ofFields [
    ("time", toJson o.time),
    ("icao_address", .ofNat o.address),
    ("callsign", .ofOption toJson o.callsign),
    ("squawk", .ofOption toJson o.squawk),
    ("data_source", .ofOption (fun c => .string (String.singleton c)) o.source)]
  ofJson := read (Observation.mk <$> required "time" ofJson <*> required "icao_address" (nat 0x100000000)
    <*> withDefault "callsign" (option string) none <*> withDefault "squawk" (option string) none
    <*> withDefault "data_source" (option char) none)

instance : Document SearchQuery where
  toJson q := .ofFields [
    ("range", toJson q.range),
    ("icao_addresses", .array (q.addresses.map toJson)),
    ("callsigns", .array (q.callsigns.map toJson)),
    ("squawks", .array (q.squawks.map toJson))]
  ofJson := read (SearchQuery.mk <$> withDefault "range" ofJson .all
    <*> withDefault "icao_addresses" (list ofJson) [] <*> withDefault "callsigns" (list ofJson) []
    <*> withDefault "squawks" (list ofJson) [])

instance : Document Sighting where
  toJson s := .ofFields [
    ("icao_address", toJson s.address),
    ("first_seen", toJson s.firstSeen),
    ("last_seen", toJson s.lastSeen),
    ("observations", .ofNat s.observations)]
  ofJson := read (Sighting.mk <$> required "icao_address" ofJson <*> required "first_seen" ofJson
    <*> required "last_seen" ofJson
    <*> required "observations" fun v => (nat (0x10000000000000000) v).map (·.val))

instance : Document EnrichedTrace where
  toJson e := .ofFields [
    ("record", toJson e.trace),
    ("aircraft", .ofOption toJson e.info),
    ("tags", .array (e.tags.toList.map toJson))]
  ofJson := read (EnrichedTrace.mk <$> required "record" ofJson <*> optional "aircraft" ofJson
    <*> required "tags" fun v => (list string v).map OrderedSet.ofList)

def Log.Entry.tagFields (a : Address) (tag : String) : Json :=
  .ofFields [("icao_address", toJson a), ("tag", .string tag)]

def Log.Entry.ofTagFields (make : Address → String → Log.Entry) : Reader Log.Entry :=
  named (make <$> required "icao_address" ofJson <*> required "tag" string)

instance : Document Log.Entry where
  toJson
    | .trace t => .object [("TraceAppend", .object [("record", toJson t)])]
    | .registration r => .object [("RegistrationUpsert", .object [("row", toJson r)])]
    | .model m => .object [("ModelUpsert", .object [("model", toJson m)])]
    | .tagAdded a tag => .object [("TagAdd", Log.Entry.tagFields a tag)]
    | .tagRemoved a tag => .object [("TagRemove", Log.Entry.tagFields a tag)]
    | .document k v =>
      .object [("MetadataSet", .ofFields [("key", .string k), ("json", .string v)])]
  ofJson
    | .object [("TraceAppend", v)] => named (Log.Entry.trace <$> required "record" ofJson) v
    | .object [("RegistrationUpsert", v)] =>
      named (Log.Entry.registration <$> required "row" ofJson) v
    | .object [("ModelUpsert", v)] => named (Log.Entry.model <$> required "model" ofJson) v
    | .object [("TagAdd", v)] => Log.Entry.ofTagFields .tagAdded v
    | .object [("TagRemove", v)] => Log.Entry.ofTagFields .tagRemoved v
    | .object [("MetadataSet", v)] =>
      named (Log.Entry.document <$> required "key" string <*> required "json" string) v
    | _ => .error .malformed

instance : Document Config where
  toJson c := .ofFields [
    ("durability", .string c.durability),
    ("lock_timeout_ms", .ofNat c.lockTimeout),
    ("time_bucket_secs", .ofInt c.bucketWidth),
    ("cancel_check_interval", .ofNat c.cancelInterval)]
  ofJson :=
    read (Config.mk <$> withDefault "durability" string Config.standard.durability
      <*> withDefault "lock_timeout_ms" (nat 0x10000000000000000) Config.standard.lockTimeout
      <*> withDefault "time_bucket_secs" integer Config.standard.bucketWidth
      <*> withDefault "cancel_check_interval" (nat 0x10000000000000000) Config.standard.cancelInterval)

end FlightTrace
