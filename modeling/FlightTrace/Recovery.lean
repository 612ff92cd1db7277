import FlightTrace.Json.Reader
import FlightTrace.Log.Entry
import FlightTrace.Tables

/-! Recovery: the tables that the entries of a log describe. Every entry makes its change again, in the
order of the log. A pair of address and tag that is added twice is passed over the second time. -/
namespace FlightTrace

/-- How many changes of each kind were made again. -/
structure Recovery where
  traces : Nat := 0
  registrations : Nat := 0
  models : Nat := 0
  tagsAdded : Nat := 0
  tagsRemoved : Nat := 0
  documents : Nat := 0
  /-- How many bytes at the end of the log were damaged. -/
  torn : Nat := 0
deriving DecidableEq

namespace Recovery

def entries (r : Recovery) : Nat :=
  r.traces + r.registrations + r.models + r.tagsAdded + r.tagsRemoved + r.documents

def redo (t : Tables) (r : Recovery) : Log.Entry → Except Error (Tables × Recovery)
  | .trace x =>
    match t.traces.appendWith (Hook.agree (κ := Empty)) x () with
    | (.ok _, _, traces) => .ok ({ t with traces }, { r with traces := r.traces + 1 })
    | (.error f, _, _) => .error f.toError
  | .registration row =>
    .ok ({ t with catalog := t.catalog.setRegistration row },
      { r with registrations := r.registrations + 1 })
  | .model row =>
    .ok ({ t with catalog := t.catalog.setModel row }, { r with models := r.models + 1 })
  | .tagAdded a tag =>
    if t.tags.contains a tag then .ok (t, r)
    else .ok ({ t with tags := t.tags.insert a tag }, { r with tagsAdded := r.tagsAdded + 1 })
  | .tagRemoved a tag =>
    let tags := if t.tags.contains a tag then t.tags.erase a tag else t.tags
    .ok ({ t with tags }, { r with tagsRemoved := r.tagsRemoved + 1 })
  | .document key text =>
    match Json.ofText? text with
    | some v =>
      .ok ({ t with metadata := t.metadata.set key v }, { r with documents := r.documents + 1 })
    | none => .error (.corruption (.document key))

def redoAll (t : Tables) (r : Recovery) (es : List Log.Entry) : Except Error (Tables × Recovery) :=
  es.foldlM (fun p e => redo p.1 p.2 e) (t, r)

end Recovery

def Tables.ofEntries (settings : Settings) (es : List Log.Entry) : Except Error Tables :=
  (Recovery.redoAll (.ofSettings settings) {} es).map (·.1)

end FlightTrace
