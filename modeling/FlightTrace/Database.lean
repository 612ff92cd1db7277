import FlightTrace.Config
import FlightTrace.Document
import FlightTrace.Recovery
import FlightTrace.Track

/-! The database: the tables, and the log that every change is written to before it is made. A change
that cannot be logged is not made. After shutdown there are no more changes. -/
namespace FlightTrace

structure Database where
  /-- The path of its folder, which is empty if there is none. -/
  folder : String := ""
  config : Config
  tables : Tables
  /-- A database without a log keeps nothing. -/
  log : Option Log := none
  accepting : Bool := true
  recovery : Recovery := {}

namespace Database

/-- A database that is only in memory. -/
def ephemeral (config : Config) : Except Error Database :=
  match config.validate, config.settings with
  | .ok (), .ok settings => .ok { config, tables := .ofSettings settings }
  | .error f, _ => .error (.invalidConfig f)
  | _, .error f => .error (.invalidConfig f)

/-- Opens a log on a file and recovers the tables from it. A damaged end is cut off. The log is left as it
is even where that fails. -/
def recover (folder : String) (config : Config) (settings : Settings) (m : Medium) (log : Log) :
    Except Error Database × Log :=
  match log.replay m with
  | (.error e, log) => (.error e, log)
  | (.ok r, log) =>
    match if r.tornLength = 0 then (.ok (), log) else log.truncate m r.soundLength with
    | (.error e, log) => (.error e, log)
    | (.ok (), log) =>
      match Recovery.redoAll (.ofSettings settings) { torn := r.tornLength } r.entries with
      | .error e => (.error e, log)
      | .ok (tables, recovery) => (.ok { folder, config, tables, log := some log, recovery }, log)

def record (m : Medium) (now : Nat) (e : Log.Entry) : Hook Empty (Option Log)
  | none => (.ok (), none)
  | some l =>
    match l.append m now e with
    | (.ok _, l) => (.ok (), some l)
    | (.error e, l) => (.error (.error e), some l)

/-- Makes a change of the tables, unless the database is shut down. -/
def change {α : Type} (f : Option Log → Tables → Except (Failure Empty) α × Option Log × Tables)
    (d : Database) : Except Error α × Database :=
  if d.accepting then
    let (r, log, tables) := f d.log d.tables
    (r.mapError Failure.toError, { d with log, tables })
  else (.error (.storage .closed), d)

variable (m : Medium) (now : Nat)

def append (r : Trace) (d : Database) : Except Error RecordId × Database :=
  d.change fun log t =>
    let (x, log, traces) := t.traces.appendWith (Hook.beside (record m now (.trace r))) r log
    (x, log, { t with traces })

def setRegistration (row : Registration) (d : Database) : Except Error Unit × Database :=
  d.change fun log t =>
    let (x, log, catalog) :=
      t.catalog.changeWith (record m now (.registration row)) (·.setRegistration row) log
    (x, log, { t with catalog })

def setModel (row : AircraftModel) (d : Database) : Except Error Unit × Database :=
  d.change fun log t =>
    let (x, log, catalog) := t.catalog.changeWith (record m now (.model row)) (·.setModel row) log
    (x, log, { t with catalog })

def addTag (a : Address) (tag : String) (d : Database) : Except Error Unit × Database :=
  d.change fun log t =>
    let (x, log, tags) := t.tags.addWith (record m now (.tagAdded a tag)) a tag log
    (x, log, { t with tags })

def removeTag (a : Address) (tag : String) (d : Database) : Except Error Bool × Database :=
  d.change fun log t =>
    let (x, log, tags) := t.tags.removeWith (record m now (.tagRemoved a tag)) a tag log
    (x, log, { t with tags })

def setDocument (key : String) (v : Json) (d : Database) : Except Error Unit × Database :=
  d.change fun log t =>
    let (x, log, metadata) := t.metadata.setWith (record m now (.ofDocument key v)) key v log
    (x, log, { t with metadata })

/-- Appends traces in their order, up to the first that fails. Each finds the file and the time as they are in
its turn. -/
def appendAll (turn : Nat → Medium × Nat) : List Trace → Database → Except Error (List RecordId) × Database
  | [], d => (.ok [], d)
  | r :: rs, d =>
    match d.append (turn 0).1 (turn 0).2 r with
    | (.error e, d) => (.error e, d)
    | (.ok i, d) =>
      match appendAll (fun n => turn (n + 1)) rs d with
      | (.error e, d) => (.error e, d)
      | (.ok is, d) => (.ok (i :: is), d)

/-- Appends the thinned-out track of some observations, if they are sound. -/
def ingestInTurns (turn : Nat → Medium × Nat) (os : List Observation) (d : Database) :
    Except Error (List RecordId) × Database :=
  match Track.validate os with
  | .error f => (.error (.invalidRecord f), d)
  | .ok rs => d.appendAll turn (Track.compact rs)

/-- Ingests observations while the file and the time stay as they are. -/
def ingest (os : List Observation) (d : Database) : Except Error (List RecordId) × Database :=
  d.ingestInTurns (fun _ => (m, now)) os

def flush (d : Database) : Except Error Unit × Database :=
  match d.log with
  | none => (.ok (), d)
  | some l =>
    let (x, l) := l.fsync m now
    (x, { d with log := some l })

/-- Ends all changes and makes them durable. Reading goes on. -/
def shutdown (d : Database) : Except Error Unit × Database :=
  { d with accepting := false }.flush m now

/-- Syncs the log if its entries have waited for too long. A failure goes unnoticed. -/
def syncIfOverdue (d : Database) : Database :=
  if d.accepting then { d with log := d.log.map fun l => (l.syncIfOverdue m now).2 } else d

end Database
end FlightTrace
