import FlightTrace.Recovery
import FlightTrace.Proofs.JsonText
import FlightTrace.Proofs.TraceContents

/-! Replay beside the changes that it repeats. An entry is logged just when its change is made, and making it
again on tables that answer alike leaves tables that answer alike. -/
namespace FlightTrace
namespace Tables

/-- Tables that answer alike, whatever is read from them. -/
structure ReadAlike (t t' : Tables) : Prop where
  query : ∀ path range cancelled, t.traces.query path range cancelled = t'.traces.query path range cancelled
  queryCallsign : ∀ text range, t.traces.queryCallsign text range = t'.traces.queryCallsign text range
  stats : t.traces.stats = t'.traces.stats
  registration? : ∀ a, t.catalog.registration? a = t'.catalog.registration? a
  withMark : ∀ mark, t.catalog.withMark mark = t'.catalog.withMark mark
  model? : ∀ code, t.catalog.model? code = t'.catalog.model? code
  registrations : t.catalog.registrations.size = t'.catalog.registrations.size
  models : t.catalog.models.size = t'.catalog.models.size
  tagsOf : ∀ a, t.tags.tagsOf a = t'.tags.tagsOf a
  addressesWith : ∀ tag, t.tags.addressesWith tag = t'.tags.addressesWith tag
  tags : t.tags.size = t'.tags.size
  get? : ∀ key, t.metadata.get? key = t'.metadata.get? key
  keys : t.metadata.keys = t'.metadata.keys

/-- Live tables beside replayed ones. The traces are the same, but replay leaves out no number. -/
structure Beside (settings : Settings) (live t : Tables) : Prop where
  catalog : live.catalog = t.catalog
  tags : live.tags = t.tags
  metadata : live.metadata = t.metadata
  traces : ∃ rs, live.traces.Contains settings rs ∧ t.traces.Contains settings rs ∧
    t.traces.watermark.reserved = rs.length

variable {settings : Settings} {live t t' : Tables} {e : Log.Entry} {es : List Log.Entry}

theorem Beside.readAlike (h : live.Beside settings t) : live.ReadAlike t := by
  obtain ⟨rs, hlive, ht, -⟩ := h.traces
  have hquery := hlive.query_eq ht
  refine ⟨hquery, fun text range => ?_, hlive.stats_eq ht, ?_, ?_, ?_, ?_, ?_, ?_, ?_, ?_, ?_, ?_⟩
  · rw [TraceTables.queryCallsign, TraceTables.queryCallsign]
    cases Callsign.ofText? text with
    | none => rfl
    | some c => exact hquery (.callsign c) range _
  all_goals simp only [h.catalog, h.tags, h.metadata, implies_true]

/-- To make the change of an entry again, whatever has been counted so far. -/
def Redone (t : Tables) (e : Log.Entry) (t' : Tables) : Prop :=
  ∀ r, (Recovery.redo t r e).map (·.1) = .ok t'

/-- What a change makes of tables that logs an entry. Documents may be limited to some. -/
inductive Made (P : Json → Prop) (live : Tables) : Log.Entry → Tables → Prop where
  | trace {σ : Type} {hook : Hook Empty σ} {s s' : σ} {r : Trace} {i : RecordId} {traces : TraceTables}
    (h : live.traces.appendWith hook.beside r s = (.ok i, s', traces)) :
    Made P live (.trace r) { live with traces }
  | registration (row : Registration) :
    Made P live (.registration row) { live with catalog := live.catalog.setRegistration row }
  | model (row : AircraftModel) : Made P live (.model row) { live with catalog := live.catalog.setModel row }
  | tagAdded {a : Address} {tag : String} (hnew : ¬live.tags.contains a tag = true) :
    Made P live (.tagAdded a tag) { live with tags := live.tags.insert a tag }
  | tagRemoved {a : Address} {tag : String} (hold : live.tags.contains a tag = true) :
    Made P live (.tagRemoved a tag) { live with tags := live.tags.erase a tag }
  | document (key : String) {v : Json} (hv : P v) :
    Made P live (.ofDocument key v) { live with metadata := live.metadata.set key v }

/-- What may become of tables in a change that is not made. A failed append uses up a number. -/
inductive Unmade (live : Tables) : Tables → Prop where
  | same : Unmade live live
  | trace {σ : Type} {hook : Hook Empty σ} {s s' : σ} {r : Trace} {f : Failure Empty} {traces : TraceTables}
    (h : live.traces.appendWith hook.beside r s = (.error f, s', traces)) :
    Unmade live { live with traces }

theorem ofEntries_append {x : Except Error Tables} (h : ofEntries settings es = .ok t)
    (he : ∀ r, (Recovery.redo t r e).map (·.1) = x) : ofEntries settings (es ++ [e]) = x := by
  rw [ofEntries, Recovery.redoAll] at h ⊢
  rw [List.foldlM_append]
  generalize es.foldlM (fun p e => Recovery.redo p.1 p.2 e) (Tables.ofSettings settings, ({} : Recovery)) = y at h
  cases y with
  | error g => cases h
  | ok p =>
    cases h
    have hlast : List.foldlM (fun p e => Recovery.redo p.1 p.2 e) p [e] = Recovery.redo p.1 p.2 e := by
      rw [List.foldlM_cons]
      exact bind_pure _
    exact (congrArg (Except.map _) hlast).trans (he p.2)

namespace Beside

theorem start (settings : Settings) : (ofSettings settings).Beside settings (ofSettings settings) :=
  ⟨rfl, rfl, rfl, [], .ofSettings settings, .ofSettings settings, rfl⟩

variable (h : live.Beside settings t)
include h

theorem trace {σ : Type} {hook : Hook Empty σ} {s s' : σ} {r : Trace} {i : RecordId} {traces : TraceTables}
    (ha : live.traces.appendWith hook.beside r s = (.ok i, s', traces)) :
    ∃ t', Redone t (.trace r) t' ∧ { live with traces }.Beside settings t' := by
  obtain ⟨rs, hlive, ht, hreserved⟩ := h.traces
  -- replay has used no more numbers than the live table, which still had one left
  have hleft : t.traces.watermark.reserved < UInt64.size := by
    have hlt := i.lt_size
    rw [Interleaving.id_of_appendWith ha] at hlt
    rw [hreserved]
    exact hlive.length_le.trans_lt hlt
  obtain ⟨j, traces', hagree, ht', hreserved'⟩ := ht.append_agree hleft r
  refine ⟨{ t with traces := traces' }, fun p => ?_, h.catalog, h.tags, h.metadata, rs ++ [r],
    hlive.appendWith ha, ht', ?_⟩
  · rw [Recovery.redo, hagree]
    rfl
  · rw [hreserved', hreserved, List.length_append]
    rfl

theorem failed {σ : Type} {hook : Hook Empty σ} {s s' : σ} {r : Trace} {f : Failure Empty}
    {traces : TraceTables} (ha : live.traces.appendWith hook.beside r s = (.error f, s', traces)) :
    { live with traces }.Beside settings t := by
  obtain ⟨rs, hlive, ht, hreserved⟩ := h.traces
  have hlive' := hlive.appendWith ha
  rw [Interleaving.added, List.append_nil] at hlive'
  exact ⟨h.catalog, h.tags, h.metadata, rs, hlive', ht, hreserved⟩

theorem registration (row : Registration) : ∃ t', Redone t (.registration row) t' ∧
    { live with catalog := live.catalog.setRegistration row }.Beside settings t' :=
  ⟨_, fun _ => rfl, congrArg (·.setRegistration row) h.catalog, h.tags, h.metadata, h.traces⟩

theorem model (row : AircraftModel) : ∃ t', Redone t (.model row) t' ∧
    { live with catalog := live.catalog.setModel row }.Beside settings t' :=
  ⟨_, fun _ => rfl, congrArg (·.setModel row) h.catalog, h.tags, h.metadata, h.traces⟩

theorem tagAdded {a : Address} {tag : String} (hnew : ¬live.tags.contains a tag = true) :
    ∃ t', Redone t (.tagAdded a tag) t' ∧ { live with tags := live.tags.insert a tag }.Beside settings t' := by
  rw [h.tags] at hnew
  refine ⟨{ t with tags := t.tags.insert a tag }, fun r => ?_, h.catalog,
    congrArg (·.insert a tag) h.tags, h.metadata, h.traces⟩
  rw [Recovery.redo, if_neg hnew]
  rfl

theorem tagRemoved {a : Address} {tag : String} (hold : live.tags.contains a tag = true) :
    ∃ t', Redone t (.tagRemoved a tag) t' ∧ { live with tags := live.tags.erase a tag }.Beside settings t' := by
  rw [h.tags] at hold
  refine ⟨{ t with tags := t.tags.erase a tag }, fun r => ?_, h.catalog,
    congrArg (·.erase a tag) h.tags, h.metadata, h.traces⟩
  rw [Recovery.redo, if_pos hold]
  rfl

theorem document (key : String) {v : Json} (hv : v.Readable) : ∃ t', Redone t (.ofDocument key v) t' ∧
    { live with metadata := live.metadata.set key v }.Beside settings t' := by
  refine ⟨{ t with metadata := t.metadata.set key v }, fun r => ?_, h.catalog, h.tags,
    congrArg (·.set key v) h.metadata, h.traces⟩
  rw [Log.Entry.ofDocument, Recovery.redo, hv.ofText?_text]
  rfl

theorem made {live' : Tables} (hm : live.Made Json.Readable e live') :
    ∃ t', Redone t e t' ∧ live'.Beside settings t' := by
  cases hm with
  | trace ha => exact h.trace ha
  | registration row => exact h.registration row
  | model row => exact h.model row
  | tagAdded hnew => exact h.tagAdded hnew
  | tagRemoved hold => exact h.tagRemoved hold
  | document key hv => exact h.document key hv

theorem unmade {live' : Tables} (hm : live.Unmade live') : live'.Beside settings t := by
  cases hm with
  | same => exact h
  | trace ha => exact h.failed ha

end Beside
end Tables
end FlightTrace
