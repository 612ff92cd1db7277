import FlightTrace.AccessPath
import FlightTrace.Index.Time
import FlightTrace.Index.Watermark
import FlightTrace.Settings
import FlightTrace.Tables.Hook

/-! The table of traces. Every trace is kept once under its number, and its key stands in a bucket of
each index that it belongs to. An append holds these buckets from before the trace gets its number
until it is in all of them, so that a scan sees all of a trace or nothing. -/
namespace FlightTrace

structure TraceTables where
  settings : Settings
  watermark : Watermark := ∅
  traces : OrderedMap RecordId Trace := ∅
  time : Index.Time
  address : Index.Keyed Address := { name := "identity index" }
  callsign : Index.Keyed Callsign := { name := "callsign index" }
  squawk : Index.Keyed Squawk := { name := "squawk index" }

structure TraceStats where
  records : Nat
  addresses : Nat
  callsigns : Nat
  squawks : Nat
  segments : Nat
  inFlight : Nat
deriving DecidableEq

namespace TraceTables

def ofSettings (settings : Settings) : TraceTables where
  settings
  time := .ofWidth settings.bucketWidth

/-- An operation on the bucket of a key, for a trace that has the key. -/
def onKey {κ α : Type} (f : α → κ → α) (a : α) : Option κ → α
  | none => a
  | some k => f a k

/-- Takes hold of the buckets of a trace, always in the same order. -/
def lock (t : TraceTables) (r : Trace) : Except Error TraceTables := do
  let n := t.settings.lockTimeout
  let time ← t.time.lock r.time n
  let address ← t.address.lock r.address n
  let callsign ← match r.callsign with
    | none => .ok t.callsign
    | some c => t.callsign.lock c n
  let squawk ← match r.squawk with
    | none => .ok t.squawk
    | some c => t.squawk.lock c n
  return { t with time, address, callsign, squawk }

def reserve? (t : TraceTables) : Option (RecordId × TraceTables) :=
  t.watermark.reserve?.map fun (i, watermark) => (i, { t with watermark })

/-- Keeps a trace and puts its key into its buckets. -/
def store (t : TraceTables) (i : RecordId) (r : Trace) : TraceTables :=
  let key := ⟨r.time, i⟩
  { t with
    traces := t.traces.insert i r
    time := t.time.put key
    address := t.address.put r.address key
    callsign := onKey (fun x c => x.put c key) t.callsign r.callsign
    squawk := onKey (fun x c => x.put c key) t.squawk r.squawk }

def release (t : TraceTables) (r : Trace) : TraceTables :=
  { t with
    time := t.time.release r.time
    address := t.address.release r.address
    callsign := onKey Index.Keyed.release t.callsign r.callsign
    squawk := onKey Index.Keyed.release t.squawk r.squawk }

def prune (t : TraceTables) (r : Trace) : TraceTables :=
  { t with
    time := t.time.prune r.time
    address := t.address.prune r.address
    callsign := onKey Index.Keyed.prune t.callsign r.callsign
    squawk := onKey Index.Keyed.prune t.squawk r.squawk }

def finish (t : TraceTables) (i : RecordId) : TraceTables :=
  { t with watermark := t.watermark.finish i.val }

/-- Holds the buckets of a trace and reserves its number. -/
def start (t : TraceTables) (r : Trace) : Except Error (RecordId × TraceTables) := do
  let t ← t.lock r
  match t.reserve? with
  | some p => return p
  | none => throw (.storage .idsUsedUp)

def commit (t : TraceTables) (i : RecordId) (r : Trace) : TraceTables :=
  ((t.store i r).release r).finish i

/-- Ends an append that came to nothing. Its number is never used again. -/
def unwind (t : TraceTables) (i : RecordId) (r : Trace) : TraceTables := (t.finish i).release r

def abandon (t : TraceTables) (i : RecordId) (r : Trace) : TraceTables := (t.unwind i r).prune r

/-- Appends a trace if the hook agrees. The hook may use the table meanwhile. -/
def appendWith {κ σ : Type} (hook : Hook κ (σ × TraceTables)) (r : Trace) (s : σ)
    (t : TraceTables) : Except (Failure κ) RecordId × σ × TraceTables :=
  match t.start r with
  | .error e => (.error (.error e), s, t.prune r)
  | .ok (i, t) =>
    match hook (s, t) with
    | (.ok (), s, t) => (.ok i, s, t.commit i r)
    | (.error (.error e), s, t) => (.error (.error e), s, t.abandon i r)
    | (.error (.crash k), s, t) => (.error (.crash k), s, t.unwind i r)

def beginScan (t : TraceTables) (cancelled : Nat → Bool) : Index.Scan where
  watermark := t.watermark.visible
  lockTimeout := t.settings.lockTimeout
  interval := t.settings.cancelInterval
  cancelled

def scan (t : TraceTables) (s : Index.Scan) (range : TimeRange) (p : Index.Scan.Progress) :
    AccessPath → Index.Scan.Progress
  | .time => t.time.scan s range p
  | .address a => t.address.scan s a range p
  | .callsign c => t.callsign.scan s c range p
  | .squawk c => t.squawk.scan s c range p

def resolve (t : TraceTables) (keys : List Index.Key) : List Trace :=
  keys.filterMap fun k => t.traces.get? k.id

/-- The traces on a path in a range of time, in the order of time and arrival. -/
def query (t : TraceTables) (path : AccessPath) (range : TimeRange) (cancelled : Nat → Bool) :
    Except Error (List Trace) :=
  if cancelled 0 then .error .cancelled
  else
    let p := t.scan (t.beginScan cancelled) range {} path
    match p.stop with
    | some e => .error e
    | none => .ok (t.resolve p.found)

/-- The traces under a callsign that is given as text. Blank text finds none. -/
def queryCallsign (t : TraceTables) (text : String) (range : TimeRange) : Except Error (List Trace) :=
  match Callsign.ofText? text with
  | some c => t.query (.callsign c) range fun _ => false
  | none => .ok []

def get? (t : TraceTables) (i : RecordId) : Option Trace :=
  if t.watermark.isVisible i.val then t.traces.get? i else none

def size (t : TraceTables) : Nat := t.traces.size

def stats (t : TraceTables) : TraceStats where
  records := t.traces.size
  addresses := t.address.size
  callsigns := t.callsign.size
  squawks := t.squawk.size
  segments := t.time.segments.size
  inFlight := t.watermark.inFlight

end TraceTables
end FlightTrace
