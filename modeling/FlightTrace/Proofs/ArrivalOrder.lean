import FlightTrace.Proofs.Shutdown
import FlightTrace.Proofs.TrackIngestion

/-! The order in which the observations of a track arrive. Each is read on its own, all must be of one aircraft, and
the sort by time is stable. So only the order of observations of one time can show, and where all times differ, two
arrivals of the same observations are one track, and leave the same in a database. -/
namespace FlightTrace

theorem Observation.time_of_toTrace {o : Observation} {t : Trace} (h : o.toTrace = .ok t) : t.time = o.time := by
  simp only [toTrace, bind, Except.bind, pure, Except.pure] at h
  split at h
  · cases h
  · split at h
    · cases h
    · split at h
      · cases h
      · cases h
        rfl

namespace Track

variable {os os' : List Observation} {rs rs' ts : List Trace}

theorem times_of_toTrace (h : List.Forall₂ (fun o t => o.toTrace = .ok t) os rs) :
    rs.map Trace.time = os.map Observation.time := by
  induction h with
  | nil => rfl
  | cons ho _ ih => rw [List.map_cons, List.map_cons, Observation.time_of_toTrace ho, ih]

theorem OfOneAircraft.perm (h : OfOneAircraft os rs) (hp : os.Perm os') :
    ∃ rs', OfOneAircraft os' rs' ∧ rs.Perm rs' := by
  obtain ⟨rs', hread, hperm⟩ := List.perm_comp_forall₂ hp.symm h.1
  refine ⟨rs', ⟨hread, fun t ht u hu => ?_⟩, hperm.symm⟩
  exact h.2 t (hperm.subset ht) u (hperm.subset hu)

theorem sortByTime_perm (rs : List Trace) : (sortByTime rs).Perm rs := List.mergeSort_perm rs _

/-- Sorting leaves the traces of one time in their order. -/
theorem filter_sortByTime (rs : List Trace) (i : Instant) :
    (sortByTime rs).filter (fun r => r.time = i) = rs.filter fun r => r.time = i := by
  have hequal : (rs.filter fun r => r.time = i).Pairwise fun t u => Ordered.leOn Trace.time t u = true := by
    refine List.pairwise_of_forall_mem_list fun t ht u hu => ?_
    have hi : t.time = u.time :=
      (of_decide_eq_true (List.mem_filter.mp ht).2).trans (of_decide_eq_true (List.mem_filter.mp hu).2).symm
    simp only [Ordered.leOn, hi]
    exact Std.ReflCmp.isLE_rfl
  have hsub : (rs.filter fun r => r.time = i).Sublist (sortByTime rs) :=
    List.sublist_mergeSort (Ordered.leOn_trans Trace.time) (Ordered.leOn_total Trace.time) hequal List.filter_sublist
  have hsub' := hsub.filter fun r => r.time = i
  rw [List.filter_filter, show (fun r : Trace => decide (r.time = i) && decide (r.time = i)) =
    fun r => decide (r.time = i) from funext fun r => Bool.and_self _] at hsub'
  exact (hsub'.eq_of_length ((sortByTime_perm rs).filter _).length_eq.symm).symm

theorem sortByTime_ascending (h : rs.Pairwise fun t u => t.time ≠ u.time) :
    (sortByTime rs).Pairwise fun t u => t.time < u.time := by
  have hne := ((sortByTime_perm rs).symm.pairwise_iff fun h => h.symm).mp h
  refine ((sortByTime_pairwise rs).and hne).imp fun {t u} htu => ?_
  obtain ⟨hle, hne⟩ := htu
  rw [Instant.le_iff_compare] at hle
  rw [Instant.lt_iff_compare]
  cases hc : compare t.time u.time with
  | lt => rfl
  | eq => exact absurd (Std.LawfulEqOrd.eq_of_compare hc) hne
  | gt =>
    rw [hc] at hle
    cases hle

/-- Traces whose times all differ are sorted in one way. -/
theorem sortByTime_eq_of_perm (hp : rs.Perm rs') (h : rs.Pairwise fun t u => t.time ≠ u.time) :
    sortByTime rs = sortByTime rs' := by
  have h' := (hp.pairwise_iff fun h => h.symm).mp h
  have hperm : (sortByTime rs).Perm (sortByTime rs') :=
    (sortByTime_perm rs).trans (hp.trans (sortByTime_perm rs').symm)
  exact hperm.eq_of_pairwise (fun _ _ _ _ htu hut => absurd hut (Ordered.not_lt_of_lt htu)) (sortByTime_ascending h)
    (sortByTime_ascending h')

theorem validate_of_perm (hp : os.Perm os') (h : os.Pairwise fun o p => o.time ≠ p.time)
    (hvalid : validate os = .ok ts) : validate os' = .ok ts := by
  obtain ⟨rs, hrs, rfl⟩ := validate_eq_ok_iff.mp hvalid
  obtain ⟨rs', hrs', hperm⟩ := hrs.perm hp
  have hdistinct : rs.Pairwise fun t u => t.time ≠ u.time := by
    rw [← List.pairwise_map (f := Trace.time) (R := (· ≠ ·)), times_of_toTrace hrs.1]
    exact List.pairwise_map.mpr h
  exact validate_eq_ok_iff.mpr ⟨rs', hrs', sortByTime_eq_of_perm hperm hdistinct⟩

/-- Two arrivals of the same observations make the same track, or both make none. -/
theorem validate_cases (hp : os.Perm os') (h : os.Pairwise fun o p => o.time ≠ p.time) :
    (∃ f f', validate os = .error f ∧ validate os' = .error f') ∨
      ∃ ts, validate os = .ok ts ∧ validate os' = .ok ts := by
  cases hvalid : validate os with
  | ok ts => exact .inr ⟨ts, rfl, validate_of_perm hp h hvalid⟩
  | error f =>
    cases hvalid' : validate os' with
    | error f' => exact .inl ⟨f, f', rfl, rfl⟩
    | ok ts =>
      have h' := (hp.pairwise_iff fun h => h.symm).mp h
      rw [validate_of_perm hp.symm h' hvalid'] at hvalid
      cases hvalid

end Track

namespace TraceTables

/-- Tables of traces that answer alike, whatever is asked for and whenever it is cancelled. -/
structure SameAnswers (t t' : TraceTables) : Prop where
  query : ∀ path range cancelled, t'.query path range cancelled = t.query path range cancelled
  queryCallsign : ∀ text range, t'.queryCallsign text range = t.queryCallsign text range
  search : ∀ q cancelled, t'.search q cancelled = t.search q cancelled
  sightings : ∀ path cancelled, t'.sightings path cancelled = t.sightings path cancelled
  size : t'.size = t.size
  stats : t'.stats = t.stats

theorem Contains.sameAnswers {t t' : TraceTables} {settings : Settings} {rs : List Trace}
    (h : t.Contains settings rs) (h' : t'.Contains settings rs) : t.SameAnswers t' where
  query := h'.query_eq h
  queryCallsign text range := by
    rw [queryCallsign, queryCallsign]
    cases Callsign.ofText? text with
    | none => rfl
    | some c => exact h'.query_eq h (.callsign c) range _
  search := h'.search_eq h
  sightings path cancelled := by rw [sightings, sightings, h'.query_eq h]
  size := h'.size_eq.trans h.size_eq.symm
  stats := h'.stats_eq h

end TraceTables

namespace Database

variable {os : List Observation} {ts : List Trace} {d d' e : Database} {turn : Nat → Medium × Nat}

theorem ingestInTurns_of_valid (h : Track.validate os = .ok ts) (turn : Nat → Medium × Nat) (d : Database) :
    d.ingestInTurns turn os = d.appendAll turn (Track.compact ts) := by
  rw [ingestInTurns, h]

theorem contains_of_ingestInTurns {settings : Settings} {qs : List Trace} {ids : List RecordId}
    (h : Track.validate os = .ok ts) (hd : d.tables.traces.Contains settings qs)
    (hingest : d.ingestInTurns turn os = (.ok ids, e)) :
    e.tables.traces.Contains settings (qs ++ Track.compact ts) := by
  rw [ingestInTurns_of_valid h] at hingest
  exact (appendAll_received hingest).contains settings qs hd

/-- A track that is validated has the traces of its observations, all of one aircraft, in the order of time, and those
of one time in the order in which they arrived. Where all times differ the order of arrival does not show: in any
other order the observations make the same track, or none as well. To ingest them has the same result in a database,
and if it succeeds in two databases with the same settings and traces, these answer alike afterwards, however their
files and clocks went on. -/
theorem arrival_order_does_not_show (os : List Observation) :
    (∀ ts, Track.validate os = .ok ts → ∃ rs, List.Forall₂ (fun o t => o.toTrace = .ok t) os rs ∧ ts.Perm rs ∧
      (∀ t ∈ ts, ∀ u ∈ ts, u.address = t.address) ∧ (ts.Pairwise fun t u => t.time ≤ u.time) ∧
      ∀ i : Instant, ts.filter (fun t => t.time = i) = rs.filter fun t => t.time = i) ∧
    ∀ os', os.Perm os' → (os.Pairwise fun o p => o.time ≠ p.time) →
      (∃ f f', Track.validate os = .error f ∧ Track.validate os' = .error f') ∨
      ∃ ts, Track.validate os = .ok ts ∧ Track.validate os' = .ok ts ∧
        (∀ turn (d : Database), d.ingestInTurns turn os' = d.ingestInTurns turn os) ∧
        ∀ settings qs (d d' : Database), d.tables.traces.Contains settings qs →
          d'.tables.traces.Contains settings qs → ∀ turn turn' ids ids' e e',
            d.ingestInTurns turn os = (.ok ids, e) → d'.ingestInTurns turn' os' = (.ok ids', e') →
            e.tables.traces.SameAnswers e'.tables.traces := by
  refine ⟨fun ts hvalid => ?_, fun os' hp hdistinct => ?_⟩
  · obtain ⟨rs, hrs, rfl⟩ := Track.validate_eq_ok_iff.mp hvalid
    have hperm := Track.sortByTime_perm rs
    exact ⟨rs, hrs.1, hperm, fun t ht u hu => hrs.2 t (hperm.subset ht) u (hperm.subset hu),
      Track.sortByTime_pairwise rs, Track.filter_sortByTime rs⟩
  · refine (Track.validate_cases hp hdistinct).imp_right fun ⟨ts, hvalid, hvalid'⟩ => ?_
    refine ⟨ts, hvalid, hvalid', fun turn d => ?_, fun settings qs d d' hd hd' turn turn' ids ids' e e' he he' => ?_⟩
    · rw [ingestInTurns_of_valid hvalid, ingestInTurns_of_valid hvalid']
    · exact (contains_of_ingestInTurns hvalid hd he).sameAnswers (contains_of_ingestInTurns hvalid' hd' he')

namespace Swapped

def first : Observation := { time := default, address := ⟨0xa835af, by decide⟩ }

def second : Observation := { first with time := ⟨30, 0, by decide, by decide⟩ }

def track : List Trace := [{ time := default, address := ⟨0xa835af, by decide⟩ },
  { time := ⟨30, 0, by decide, by decide⟩, address := ⟨0xa835af, by decide⟩ }]

theorem validate_track : Track.validate [first, second] = .ok track := by
  have hsorted : Track.sortByTime track = track := List.mergeSort_of_pairwise (by decide)
  refine Track.validate_eq_ok_iff.mpr ⟨track, ⟨?_, by decide⟩, hsorted.symm⟩
  exact .cons rfl (.cons rfl .nil)

def memory : Database := { config := .standard, tables := .ofSettings {} }

def logged : Database := { memory with log := some (.ofFile .strict [] 0) }

theorem memory_ready : memory.Ready := ⟨rfl, ⟨{}, [], .ofSettings {}⟩, nofun⟩

theorem logged_ready : logged.Ready := by
  refine ⟨rfl, ⟨{}, [], .ofSettings {}⟩, fun l hl => ?_⟩
  cases hl
  rfl

end Swapped

open Swapped

/-- Two observations are ingested in their order where there is a log, and the other way round where there is none. -/
theorem swapped_observations_answer_alike : ∃ ids ids' e e',
    memory.ingestInTurns (fun n => (.sound, n)) [first, second] = (.ok ids, e) ∧
    logged.ingestInTurns (fun n => (.sound, 2 * n)) [second, first] = (.ok ids', e') ∧
    e.tables.traces.SameAnswers e'.tables.traces := by
  have hfits : ∀ r ∈ Track.compact track, Log.Frame.Fits (.trace r) := by decide +kernel
  obtain ⟨ids, e, hfirst, -⟩ := memory_ready.ingest_sound (fun n => (.sound, n)) validate_track hfits
    (by decide) fun _ => rfl
  obtain ⟨-, hswapped⟩ := arrival_order_does_not_show [first, second]
  rcases hswapped [second, first] (.swap second first []) (by decide) with
    ⟨f, f', hf, -⟩ | ⟨ts, hvalid, hvalid', -, halike⟩
  · rw [validate_track] at hf
    cases hf
  · obtain rfl : track = ts := Except.ok.inj (validate_track.symm.trans hvalid)
    obtain ⟨ids', e', hsecond, -⟩ := logged_ready.ingest_sound (fun n => (.sound, 2 * n)) hvalid' hfits
      (by decide) fun _ => rfl
    exact ⟨ids, ids', e, e', hfirst, hsecond, halike {} [] memory logged (.ofSettings {}) (.ofSettings {}) _ _ _ _ _ _
      hfirst hsecond⟩

end Database
end FlightTrace
