import FlightTrace.Database
import FlightTrace.Document.Record
import FlightTrace.Identifier.Description

/-! Reports: documents that show identifiers and ranges in all their forms, and how a store is doing.
They are only written. -/
namespace FlightTrace

/-- A value of an identifier, its text, and its description. -/
def identifierReport (name : String) (v : Json) (text description : String) : Json := .ofFields [
  (name, v),
  ("display", .string text),
  ("debug", .string description)]

def Address.report (a : Address) : Json :=
  identifierReport "value" (.ofNat a.val) a.text a.description

def Squawk.report (c : Squawk) : Json :=
  identifierReport "value" (.ofNat c.val) c.text c.description

def Callsign.report (c : Callsign) : Json :=
  identifierReport "text" (.string c.text) c.text c.description

def WakeCategory.report (w : WakeCategory) : Json := .ofFields [
  ("letter", .string (String.singleton w.letter)),
  ("display", .string (String.singleton w.letter)),
  ("name", .string w.name)]

def Index.Key.report (k : Index.Key) : Json := .array [toJson k.time, .string k.id.text]

def Index.KeyRange.report (r : Index.KeyRange) : Json :=
  let bound := fun (b : Bound Index.Key) =>
    match b with
    | .unbounded => Json.string "Unbounded"
    | .included k => .object [("Included", k.report)]
    | .excluded k => .object [("Excluded", k.report)]
  .array [bound r.lower, bound r.upper]

def Durability.report : Durability → Json
  | .strict => .string "strict"
  | .batched interval batch => .array [.ofNat interval, .ofNat batch]

def Settings.report (s : Settings) : Json :=
  .array [.ofNat s.lockTimeout, .ofInt s.bucketWidth, .ofNat s.cancelInterval]

def TraceStats.report (s : TraceStats) : Json := .ofFields [
  ("records", .ofNat s.records),
  ("identities", .ofNat s.addresses),
  ("callsigns", .ofNat s.callsigns),
  ("squawks", .ofNat s.squawks),
  ("time_segments", .ofNat s.segments),
  ("in_flight", .ofNat s.inFlight)]

def Recovery.report (r : Recovery) : Json := .ofFields [
  ("traces", .ofNat r.traces),
  ("registrations", .ofNat r.registrations),
  ("models", .ofNat r.models),
  ("tags_added", .ofNat r.tagsAdded),
  ("tags_removed", .ofNat r.tagsRemoved),
  ("metadata", .ofNat r.documents),
  ("torn_bytes", .ofNat r.torn),
  ("entries", .ofNat r.entries)]

def Database.report (d : Database) : Json := .ofFields [
  ("open", .bool d.accepting),
  ("ephemeral", .bool d.log.isNone),
  ("mode", .ofOption (fun (l : Log) => l.durability.report) d.log),
  ("config", toJson d.config),
  ("no_dir", .bool d.folder.isEmpty)]

end FlightTrace
