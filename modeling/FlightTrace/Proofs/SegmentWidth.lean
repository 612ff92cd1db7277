import FlightTrace.Proofs.Reopening
import FlightTrace.Proofs.Searching
import FlightTrace.Proofs.TimeIndex

/-! What the settings of a database do not change. The index by time finds the same for any width of its
segments, and a log gives tables that answer alike, whatever the settings that it is opened with. -/
namespace FlightTrace

/-- Tables that give the same answer to every query and every search that is not cancelled. -/
structure TraceTables.AnswersAlike (t t' : TraceTables) : Prop where
  query : ∀ path range, t'.query path range (fun _ => false) = t.query path range fun _ => false
  search : ∀ q, t'.search q (fun _ => false) = t.search q fun _ => false

namespace TraceTables.Contains

variable {t t' : TraceTables} {settings settings' : Settings} {rs : List Trace}

theorem query_eq_ok (h : t.Contains settings rs) (path : AccessPath) (range : TimeRange) :
    t.query path range (fun _ => false) = .ok (Trace.matching rs range path) := by
  obtain ⟨as, hs, -, rfl, -⟩ := h
  exact hs.query_eq range path

theorem search_eq_ok (h : t.Contains settings rs) (q : SearchQuery) :
    t.search q (fun _ => false) = .ok (Trace.sought rs q) := by
  obtain ⟨as, hs, -, rfl, -⟩ := h
  exact hs.search_eq q

theorem answersAlike (h : t.Contains settings rs) (h' : t'.Contains settings' rs) : t.AnswersAlike t' where
  query path range := (h'.query_eq_ok path range).trans (h.query_eq_ok path range).symm
  search q := (h'.search_eq_ok q).trans (h.search_eq_ok q).symm

end TraceTables.Contains

namespace Database

variable {settings : Settings} {d : Database} {folder : String} {config : Config} {m : Medium} {log : Log}

/-- A log that is opened with some settings has entries that the tables are made of, with these settings and with
any others. -/
theorem exists_entries (hopen : (recover folder config settings m log).1 = .ok d) :
    ∃ es, Tables.ofEntries settings es = .ok d.tables ∧
      ∀ folder' config' settings' t', Tables.ofEntries settings' es = .ok t' →
        ∃ d', (recover folder' config' settings' m log).1 = .ok d' ∧ d'.tables = t' := by
  have hentries (torn : Nat) {settings : Settings} {es : List Log.Entry} {t : Tables} :
      Tables.ofEntries settings es = .ok t ↔
        ∃ c, Recovery.redoAll (.ofSettings settings) { torn } es = .ok (t, c) := by
    rw [Tables.ofEntries, Recovery.redoAll_tables _ _ { torn }]
    cases Recovery.redoAll (.ofSettings settings) { torn } es with
    | error e => simp [Except.map]
    | ok p => simp [Except.map, Prod.ext_iff]
  rw [recover] at hopen
  cases hreplay : log.replay m with
  | mk x log₁ =>
    rw [hreplay] at hopen
    cases x with
    | error e => cases hopen
    | ok r =>
      simp only at hopen
      split at hopen
      · cases hopen
      · rename_i log₂ hcut
        cases hall : Recovery.redoAll (.ofSettings settings) { torn := r.tornLength } r.entries with
        | error e =>
          rw [hall] at hopen
          cases hopen
        | ok p =>
          rw [hall] at hopen
          cases hopen
          refine ⟨r.entries, (hentries _).mpr ⟨p.2, hall⟩, fun folder' config' settings' t' ht' => ?_⟩
          obtain ⟨c, hall'⟩ := (hentries r.tornLength).mp ht'
          refine ⟨{ folder := folder', config := config', tables := t', log := some log₂, recovery := c }, ?_, rfl⟩
          rw [recover, hreplay]
          simp only [hcut, hall']

/-- A log that can be opened with some settings can be opened with any others, and the answers are the same. -/
theorem recover_answersAlike (hopen : (recover folder config settings m log).1 = .ok d) (folder' : String)
    (config' : Config) (settings' : Settings) : ∃ d', (recover folder' config' settings' m log).1 = .ok d' ∧
      d.tables.traces.AnswersAlike d'.tables.traces := by
  obtain ⟨es, hes, hother⟩ := exists_entries hopen
  rcases Tables.ofEntries_cases settings' es (Tables.length_traces_le hes) with
    ⟨-, t', ht', hrecovered⟩ | ⟨key, text, hmem, hnone, -⟩
  · obtain ⟨d', hopen', rfl⟩ := hother folder' config' settings' t' ht'
    exact ⟨d', hopen', (Tables.recovered_of_ofEntries hes).traces.answersAlike hrecovered.traces⟩
  · exact absurd hnone (Tables.redoable_of_ofEntries hes _ hmem key text rfl)

theorem Stores.reopened_answersAlike {es : List Log.Entry} (hs : d.Stores settings es) (f : Log.Faults) (now : Nat)
    {d' : Database} (hshut : d.shutdown f.medium now = (.ok (), d')) : ∃ l, d'.log = some l ∧
      ∀ folder' config' settings' m' durability' opened' last ended d'',
        (recover folder' config' settings' m' (.ofFile durability' (l.close last ended) opened')).1 = .ok d'' →
        d.tables.traces.AnswersAlike d''.tables.traces := by
  obtain ⟨l, hlog, hcases⟩ := hs.reopen_cases f now hshut
  refine ⟨l, hlog, fun folder' config' settings' m' durability' opened' last ended d'' hopen => ?_⟩
  rcases hcases folder' config' settings' m' durability' opened' last ended with
    ⟨-, d₁, hok, hrecovered⟩ | ⟨key, text, -, -, herror⟩
  · obtain rfl : d₁ = d'' := Except.ok.inj (hok.symm.trans hopen)
    exact hs.traces.answersAlike hrecovered.traces
  · rw [hopen] at herror
    cases herror

end Database

open Index.Time in
/-- The index by time is one ordered set cut into segments. Whatever the width of a segment and however the index
was used, a scan that meets no held segment examines the keys in the range that were put in, in their order, and
finds those below its mark; the directory is asked only for a range whose ends are the right way round. So two
widths answer alike, and a database that is opened with other settings answers as before, also if it was changed in
between by calls that may have failed. -/
theorem segment_width_does_not_show :
    (∀ width uses range, let h := History.run width uses
      (range.isEmpty = true → ∀ s p, h.index.scan s range p = p) ∧
      (range.isEmpty = false →
        (h.index.segmentBound range.lower).Meets (h.index.segmentBound range.upper) ∧
        ∀ n, h.index.reaches range n = ((h.index.segmentBound range.lower).admitsAbove n &&
          (h.index.segmentBound range.upper).admitsBelow n)) ∧
      (h.index.FreeFor range → ∀ s p,
        let ks := (OrderedSet.ofList h.keys).toList.filter fun k => range.contains k.time
        h.index.scan s range p = ks.foldl s.examine p ∧
        (p.stop = none → (∀ n, s.cancelled n = false) → h.index.scan s range p =
          ⟨p.scanned + ks.length, p.found ++ ks.filter fun k => k.id.val < s.watermark, none⟩))) ∧
    (∀ width timeout ks, let h := History.run width (ks.flatMap (Use.insert timeout))
      h.keys = ks ∧ ∀ n, (h.index.segments.bucket n).held = false) ∧
    (∀ width uses width' uses' range, let h := History.run width uses
      let h' := History.run width' uses'
      h.index.FreeFor range → h'.index.FreeFor range → (∀ k, k ∈ h'.keys ↔ k ∈ h.keys) →
        ∀ s p, h'.index.scan s range p = h.index.scan s range p) ∧
    (∀ folder config settings m log d, (Database.recover folder config settings m log).1 = .ok d →
      ∀ folder' config' settings', ∃ d', (Database.recover folder' config' settings' m log).1 = .ok d' ∧
        d.tables.traces.AnswersAlike d'.tables.traces) ∧
    ∀ folder config settings durability opened m es tail d, (∀ e ∈ es, Log.Frame.Fits e) →
      Log.Replay.ofBytes (Log.Replay.frames es ++ tail) =
        .ok ⟨es, (Log.Replay.frames es).length, tail.length⟩ →
      (Database.recover folder config settings m
        (.ofFile durability (Log.Replay.frames es ++ tail) opened)).1 = .ok d →
      ∀ steps, let live := (Database.History.runAny ⟨d, es⟩ steps).database
        ∀ (f : Log.Faults) now d', live.shutdown f.medium now = (.ok (), d') → ∃ l, d'.log = some l ∧
          ∀ folder' config' settings' m' durability' opened' last ended d'',
            (Database.recover folder' config' settings' m'
              (.ofFile durability' (l.close last ended) opened')).1 = .ok d'' →
            live.tables.traces.AnswersAlike d''.tables.traces := by
  refine ⟨fun width uses range => ?_, History.run_inserts, ?_,
    fun folder config settings m log d hopen => Database.recover_answersAlike hopen,
    fun folder config settings durability opened m es tail d hfits hread hopen steps f now d' hshut => ?_⟩
  · have hkeeps := History.run_keeps width uses
    refine ⟨fun hr s p => if_pos hr, fun hr => ⟨segmentBound_meets _ hr, fun n => reaches_eq⟩,
      fun hfree s p => ?_⟩
    intro ks
    have hscan := hkeeps.scan_eq hfree s p
    exact ⟨hscan, fun hp hnever => hscan.trans (Index.Scan.foldl_examine_free hnever hp ks)⟩
  · intro width uses width' uses' range h h' hfree hfree' hkeys s p
    have hset : OrderedSet.ofList (History.run width' uses').keys =
        OrderedSet.ofList (History.run width uses).keys := by
      refine OrderedSet.ext fun k => ?_
      rw [OrderedSet.mem_ofList, OrderedSet.mem_ofList]
      exact hkeys k
    rw [(History.run_keeps width' uses').scan_eq hfree', (History.run_keeps width uses).scan_eq hfree, hset]
  · have hopened : d.Stores settings es := Database.recover_stores durability opened m hfits hread hopen
    have hstores := Database.History.runAny_stores (h := ⟨d, es⟩) hopened steps
    exact hstores.reopened_answersAlike f now hshut

end FlightTrace
