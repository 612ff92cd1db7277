import FlightTrace.Proofs.Reopening
import FlightTrace.Proofs.Searching
import FlightTrace.Sighting

/-! What holds after a shutdown. No change is made any more, whatever is tried and whether or not the shutdown could
write what waited. If it could, the file alone gives tables that answer alike, except that the traces are numbered
afresh: the numbers of appends that failed are given out again. -/
namespace FlightTrace

namespace Ordered

theorem eq_range_of_ascending {ns : List Nat} (h : ns.Pairwise (· < ·)) (hlt : ∀ n ∈ ns, n < ns.length) :
    ns = List.range ns.length := by
  have hnodup : ns.Nodup := h.imp Nat.ne_of_lt
  have hsub : ns ⊆ List.range ns.length := fun n hn => List.mem_range.mpr (hlt n hn)
  have hperm : ns.Perm (List.range ns.length) :=
    (hnodup.subperm hsub).perm_of_length_le (List.length_range ▸ Nat.le_refl _)
  exact hperm.eq_of_pairwise (fun a b _ _ hab hba => absurd hba (Nat.lt_asymm hab)) h List.pairwise_lt_range

end Ordered

namespace TraceTables

open Interleaving

/-- The traces of a table with their numbers, in the order of their appends. -/
structure Numbers (t : TraceTables) (ps : List (RecordId × Trace)) : Prop where
  ascending : ps.Pairwise fun p q => p.1.val < q.1.val
  lt_reserved : ∀ p ∈ ps, p.1.val < t.watermark.reserved
  get?_iff : ∀ i r, t.get? i = some r ↔ (i, r) ∈ ps

/-- Two tables with the same traces in the same order, of which the second leaves out no number. -/
structure Renumbers (t t' : TraceTables) (ids : List RecordId) : Prop where
  ascending : ids.Pairwise fun i j => i.val < j.val
  mem_iff : ∀ i, i ∈ ids ↔ t.get? i ≠ none
  get?_eq : ∀ i, t'.get? i = ids[i.val]?.bind t.get?

variable {t t' : TraceTables} {settings : Settings} {rs : List Trace} {ps : List (RecordId × Trace)}

namespace Contains

theorem exists_numbers (h : t.Contains settings rs) : ∃ ps, t.Numbers ps ∧ ps.map (·.2) = rs := by
  obtain ⟨as, hs, -, rfl, -⟩ := h
  refine ⟨State.committed ⟨t, as⟩, ⟨hs.ordered, fun p hp => ?_, fun i r => ?_⟩, rfl⟩
  · have hlt := hs.arranged.lt_visible hp
    rwa [hs.arranged.visible_eq_reserved] at hlt
  · rw [← hs.sound.mem_shown_iff, hs.shown_eq]

theorem size_eq (h : t.Contains settings rs) : t.size = rs.length := by
  obtain ⟨as, hs, -, rfl, -⟩ := h
  exact hs.size_eq

theorem search_eq (h : t.Contains settings rs) (h' : t'.Contains settings rs) (q : SearchQuery)
    (cancelled : Nat → Bool) : t.search q cancelled = t'.search q cancelled := by
  obtain ⟨as, hs, -, happ, hset, -⟩ := h
  obtain ⟨as', hs', -, happ', hset', -⟩ := h'
  cases hc : cancelled 0 with
  | true => rw [search, search, hc, if_pos rfl, if_pos rfl]
  | false =>
    have hq := hs.search_cases q cancelled hc
    have hq' := hs'.search_cases q cancelled hc
    rw [happ] at hq
    rw [happ'] at hq'
    have hinterval : t'.settings.cancelInterval = t.settings.cancelInterval := by rw [hset, hset']
    exact Index.Scan.outcome_eq hq hq' hinterval rfl

end Contains

namespace Numbers

theorem get?_of_mem (h : t.Numbers ps) {p : RecordId × Trace} (hp : p ∈ ps) : t.get? p.1 = some p.2 :=
  (h.get?_iff _ _).mpr hp

theorem get?_of_dense (h : t.Numbers ps) (hdense : t.watermark.reserved = ps.length) (i : RecordId) :
    t.get? i = (ps.map (·.2))[i.val]? := by
  have hall : ps.map (·.1.val) = List.range ps.length := by
    have hlt : ∀ n ∈ ps.map (·.1.val), n < (ps.map (·.1.val)).length := by
      intro n hn
      obtain ⟨p, hp, rfl⟩ := List.mem_map.mp hn
      rw [List.length_map, ← hdense]
      exact h.lt_reserved p hp
    have hrange := Ordered.eq_range_of_ascending (List.pairwise_map.mpr h.ascending) hlt
    rwa [List.length_map] at hrange
  have hplace {n : Nat} {p : RecordId × Trace} (hp : ps[n]? = some p) : p.1.val = n := by
    have hn : (ps.map (·.1.val))[n]? = some p.1.val := by rw [List.getElem?_map, hp, Option.map_some]
    rw [hall, List.getElem?_eq_some_iff] at hn
    obtain ⟨hlt, hval⟩ := hn
    rw [List.getElem_range] at hval
    exact hval.symm
  ext r
  rw [h.get?_iff, List.getElem?_map, Option.map_eq_some_iff]
  constructor
  · intro hmem
    obtain ⟨n, hn⟩ := List.mem_iff_getElem?.mp hmem
    have hin : i.val = n := hplace hn
    exact ⟨(i, r), hin ▸ hn, rfl⟩
  · rintro ⟨p, hp, rfl⟩
    have hi : p.1 = i := RecordId.eq_of_val_eq (hplace hp)
    exact hi ▸ List.mem_of_getElem? hp

theorem renumbers (h : t.Numbers ps) {ps' : List (RecordId × Trace)} (h' : t'.Numbers ps')
    (hdense : t'.watermark.reserved = ps'.length) (heq : ps'.map (·.2) = ps.map (·.2)) :
    t.Renumbers t' (ps.map (·.1)) where
  ascending := List.pairwise_map.mpr h.ascending
  mem_iff i := by
    rw [List.mem_map, Option.ne_none_iff_exists']
    constructor
    · rintro ⟨p, hp, rfl⟩
      exact ⟨p.2, h.get?_of_mem hp⟩
    · rintro ⟨r, hr⟩
      exact ⟨(i, r), (h.get?_iff i r).mp hr, rfl⟩
  get?_eq i := by
    rw [h'.get?_of_dense hdense, heq, List.getElem?_map, List.getElem?_map]
    cases hp : ps[i.val]? with
    | none => rfl
    | some p => exact (h.get?_of_mem (List.mem_of_getElem? hp)).symm

end Numbers
end TraceTables

namespace Tables

/-- Tables that answer alike, whatever is read from them, up to the numbers of their traces. Where no number was left
out, these are the same as well. -/
structure AlikeButNumbers (live t : Tables) : Prop where
  catalog : live.catalog = t.catalog
  tags : live.tags = t.tags
  metadata : live.metadata = t.metadata
  query : ∀ path range cancelled, live.traces.query path range cancelled = t.traces.query path range cancelled
  queryCallsign : ∀ text range, live.traces.queryCallsign text range = t.traces.queryCallsign text range
  search : ∀ q cancelled, live.traces.search q cancelled = t.traces.search q cancelled
  sightings : ∀ path cancelled, live.traces.sightings path cancelled = t.traces.sightings path cancelled
  size : live.traces.size = t.traces.size
  stats : live.traces.stats = t.traces.stats
  renumbers : ∃ ids, live.traces.Renumbers t.traces ids
  get?_eq : live.traces.watermark.reserved = live.traces.size → ∀ i, live.traces.get? i = t.traces.get? i

theorem Beside.alikeButNumbers {settings : Settings} {live t : Tables} (h : live.Beside settings t) :
    live.AlikeButNumbers t := by
  have hread := h.readAlike
  obtain ⟨rs, hlive, ht, hreserved⟩ := h.traces
  obtain ⟨ps, hps, hrs⟩ := hlive.exists_numbers
  obtain ⟨ps', hps', hrs'⟩ := ht.exists_numbers
  have hdense : t.traces.watermark.reserved = ps'.length := by rw [hreserved, ← hrs', List.length_map]
  refine ⟨h.catalog, h.tags, h.metadata, hread.query, hread.queryCallsign, hlive.search_eq ht,
    fun path cancelled => ?_, hlive.size_eq.trans ht.size_eq.symm, hread.stats,
    ⟨_, hps.renumbers hps' hdense (hrs'.trans hrs.symm)⟩, fun hall i => ?_⟩
  · rw [TraceTables.sightings, TraceTables.sightings, hread.query]
  · have hdense' : live.traces.watermark.reserved = ps.length := by
      rw [hall, hlive.size_eq, ← hrs, List.length_map]
    rw [hps.get?_of_dense hdense', hps'.get?_of_dense hdense, hrs, hrs']

end Tables

namespace Database

variable {settings : Settings} {es : List Log.Entry} {d d' : Database} {m : Medium} {now : Nat}

/-- One of the changes, with any document. -/
inductive Mutation where
  | change (c : Change)
  | setDocument (key : String) (v : Json)

def Mutation.make (m : Medium) (now : Nat) (d : Database) : Mutation → Except Error Bool × Database
  | change c => c.make m now d
  | setDocument key v => (d.setDocument m now key v).map (·.map fun _ => true) id

/-- Tries changes one after the other. Each finds the file and the time as they are in its turn. -/
def attempt : List (Mutation × Medium × Nat) → Database → List (Except Error Bool) × Database
  | [], d => ([], d)
  | (c, m, now) :: cs, d =>
    let (x, d) := c.make m now d
    let (xs, d) := attempt cs d
    (x :: xs, d)

/-- A change is refused before anything is looked at: a tag that is there, or one that is not, is no exception. -/
theorem Mutation.make_closed (h : d.accepting = false) (c : Mutation) :
    c.make m now d = (.error (.storage .closed), d) := by
  have hclosed {α : Type} (g : Option Log → Tables → Except (Failure Empty) α × Option Log × Tables) :
      d.change g = (.error (.storage .closed), d) := change_closed h g
  cases c with
  | setDocument key v => rw [make, Database.setDocument, hclosed]; rfl
  | change c =>
    cases c with
    | append r => rw [make, Change.make, append, hclosed]; rfl
    | setRegistration row => rw [make, Change.make, setRegistration, hclosed]; rfl
    | setModel row => rw [make, Change.make, setModel, hclosed]; rfl
    | addTag a tag => rw [make, Change.make, addTag, hclosed]; rfl
    | removeTag a tag => rw [make, Change.make, removeTag, hclosed]
    | setDocument key v => rw [make, Change.make, Database.setDocument, hclosed]; rfl

theorem attempt_closed (h : d.accepting = false) (cs : List (Mutation × Medium × Nat)) :
    d.attempt cs = (cs.map fun _ => .error (.storage .closed), d) := by
  induction cs with
  | nil => rfl
  | cons c cs ih => simp only [attempt, Mutation.make_closed h, ih, List.map_cons]

theorem accepting_flush (m : Medium) (now : Nat) (d : Database) : (d.flush m now).2.accepting = d.accepting := by
  rw [flush]
  split <;> rfl

theorem accepting_shutdown (m : Medium) (now : Nat) (d : Database) : (d.shutdown m now).2.accepting = false :=
  accepting_flush m now { d with accepting := false }

theorem tables_shutdown (m : Medium) (now : Nat) (d : Database) : (d.shutdown m now).2.tables = d.tables :=
  tables_flush now m

/-- A file that is opened gives a database that stands beside its own replay. -/
theorem recover_sound {tail : List UInt8} {durability : Durability} {opened : Nat}
    (hfits : ∀ e ∈ es, Log.Frame.Fits e) (hread : Log.Replay.ofBytes (Log.Replay.frames es ++ tail) =
      .ok ⟨es, (Log.Replay.frames es).length, tail.length⟩) {folder : String} {config : Config}
    (hopen : (recover folder config settings m
      (.ofFile durability (Log.Replay.frames es ++ tail) opened)).1 = .ok d) : d.Sound settings es := by
  obtain ⟨-, htables⟩ := recover_torn durability opened m hread hopen
  have hrecovered := Tables.recovered_of_ofEntries htables
  exact ⟨(recover_stores durability opened m hfits hread hopen).logged, d.tables, htables, rfl, rfl, rfl, _,
    hrecovered.traces, hrecovered.traces, hrecovered.reserved⟩

theorem sync_of_shutdown (hs : d.shutdown m now = (.ok (), d')) {l : Log} (hl : d.log = some l) :
    ∃ l', d'.log = some l' ∧ l.sync m now = (.ok (), l') := by
  simp only [shutdown, flush, hl] at hs
  cases hf : l.fsync m now with
  | mk x l' =>
    rw [hf] at hs
    cases hs
    exact ⟨l', rfl, Log.fsync_eq_ok_iff.mp hf⟩

theorem Sound.shutdown_reopens (h : d.Sound settings es) (f : Log.Faults)
    (hs : d.shutdown f.medium now = (.ok (), d')) : ∃ l, d'.log = some l ∧ l.pending = [] ∧ f.syncs = true ∧
      l.unsynced = 0 ∧ ∀ folder config m durability opened, ∃ d'',
        (recover folder config settings m (.ofFile durability l.file opened)).1 = .ok d'' ∧
        d'.tables.AlikeButNumbers d''.tables := by
  obtain ⟨l₀, hlog₀, -⟩ := h.logged
  obtain ⟨l, hlog, hsync⟩ := sync_of_shutdown hs hlog₀
  have hp : l.pending = [] := Log.pending_of_sync_ok hsync
  have hdown : d'.Sound settings es := by
    have hsound := shutdown_sound f now h
    rwa [hs] at hsound
  obtain ⟨⟨l', hlog', hl⟩, t, ht, hbeside⟩ := hdown
  obtain rfl : l = l' := Option.some.inj (hlog.symm.trans hlog')
  have hfile : l.file = Log.Replay.frames es := by
    have hstream := hl.stream
    rwa [hp, List.append_nil] at hstream
  refine ⟨l, hlog, hp, Log.syncs_of_sync_ok hsync, Log.unsynced_of_sync_ok hsync,
    fun folder config m durability opened => ?_⟩
  obtain ⟨recovery, hopen⟩ :=
    recover_ofFile opened (Log.Replay.ofBytes_frames hl.fits) ht folder config m durability
  rw [← hfile] at hopen
  exact ⟨_, hopen, hbeside.alikeButNumbers⟩

/-- A database is shut down, in whatever state it is and however the shutdown ends. From then on every change is refused
and nothing is different: the tables, and so all answers and the number that the next trace would have got, are those
from before, and the log is as the shutdown left it. If the database was opened on a log of its own and changed in any
way, while files could be cut and documents had texts that keep them, and if the shutdown succeeded, then all entries
are in the file and synced, and what is opened from the file answers alike but for the numbers of traces. -/
theorem shutdown_is_final :
    (∀ (d : Database) (m : Medium) (now : Nat) x d', d.shutdown m now = (x, d') →
      d'.tables = d.tables ∧
      ∀ cs : List (Mutation × Medium × Nat), d'.attempt cs = (cs.map fun _ => .error (.storage .closed), d')) ∧
    ∀ settings es tail folder config durability opened m d, (∀ e ∈ es, Log.Frame.Fits e) →
      Log.Replay.ofBytes (Log.Replay.frames es ++ tail) =
        .ok ⟨es, (Log.Replay.frames es).length, tail.length⟩ →
      (recover folder config settings m (.ofFile durability (Log.Replay.frames es ++ tail) opened)).1 = .ok d →
      ∀ steps : List Step, let live := (History.run ⟨d, es⟩ steps).database
        ∀ (f : Log.Faults) now d', live.shutdown f.medium now = (.ok (), d') → ∃ l, d'.log = some l ∧
          l.pending = [] ∧ f.syncs = true ∧ l.unsynced = 0 ∧
          ∀ folder' config' m' durability' opened', ∃ d'',
            (recover folder' config' settings m' (.ofFile durability' l.file opened')).1 = .ok d'' ∧
            d'.tables.AlikeButNumbers d''.tables := by
  refine ⟨fun d m now x d' hs => ?_, ?_⟩
  · obtain rfl : (d.shutdown m now).2 = d' := congrArg Prod.snd hs
    exact ⟨tables_shutdown m now d, attempt_closed (accepting_shutdown m now d)⟩
  · intro settings es tail folder config durability opened m d hfits hread hopen steps live f now d' hs
    have hsound : live.Sound settings _ :=
      History.run_sound (h := ⟨d, es⟩) (recover_sound hfits hread hopen) steps
    exact hsound.shutdown_reopens f hs

open Nesting

/-- A tag is added, and the database is shut down. The tag cannot be added again then, nor one be removed that is not
there; the file holds the tag. -/
theorem tags_are_refused_after_shutdown :
    let a : Address := ⟨6, by decide⟩
    let tagged := fresh.addTag .sound 0 a "mil"
    let down := tagged.2.shutdown .sound 0
    tagged.1 = .ok () ∧ down.1 = .ok () ∧
    down.2.attempt [(.change (.addTag a "mil"), .sound, 0), (.change (.removeTag a "new"), .sound, 0)] =
      ([.error (.storage .closed), .error (.storage .closed)], down.2) ∧
    ∃ l d, down.2.log = some l ∧ (recover "" .standard {} .sound (.ofFile .strict l.file 0)).1 = .ok d ∧
      down.2.tables.AlikeButNumbers d.tables := by
  intro a tagged down
  obtain ⟨hfinal, hfile⟩ := shutdown_is_final
  obtain ⟨l, hlog, -, -, -, hopen⟩ := hfile {} [] [] "" .standard .strict 0 .sound fresh fits_nil ofBytes_nil
    recover_fresh [⟨.change (.addTag a "mil"), 0, clear⟩] clear 0 down.2
    (Prod.ext (shutdown_sound_ok tagged.2) rfl)
  obtain ⟨d, hd, halike⟩ := hopen "" .standard .sound .strict 0
  exact ⟨by decide +kernel, shutdown_sound_ok tagged.2, (hfinal tagged.2 .sound 0 down.1 down.2 rfl).2 _,
    l, d, hlog, hd, halike⟩

/-- An append fails and the next one gets the number 1. Once the database is shut down and opened again, nothing has
this number. -/
theorem trace_is_renumbered :
    let stuck : Log.Faults := ⟨fun _ _ => some 0, true⟩
    let r : Trace := { time := default, address := ⟨6, by decide⟩ }
    let refused := fresh.append stuck.medium 0 r
    let taken := refused.2.append clear.medium 0 r
    let down := taken.2.shutdown clear.medium 0
    let file := (down.2.log.map Log.file).getD []
    let reopened := (recover "" .standard {} .sound (.ofFile .strict file 0)).1
    (recover "" .standard {} .sound (.ofFile .strict [] 0)).1 = .ok fresh ∧
    refused.1 = .error (.storage (.unwritten 0)) ∧ taken.1 = .ok ⟨1, by decide⟩ ∧ down.1 = .ok () ∧
    down.2.tables.traces.get? ⟨1, by decide⟩ = some r ∧
    reopened.toOption.map (fun d => d.tables.traces.get? ⟨1, by decide⟩) = some none :=
  ⟨recover_fresh, by decide +kernel⟩

end Database
end FlightTrace
