import FlightTrace.Proofs.RenumberedReaders

/-! Unused buckets. A bucket that is neither held nor filled counts as one that is missing. So two tables that differ
in unused buckets at most go on in step, and readers find the same in both; only the sizes can tell them apart. -/
namespace FlightTrace

/-- A scan is told by the name of the index and the bucket that it reads. -/
theorem Index.Keyed.scan_congr {κ : Type} [Ord κ] [Std.TransOrd κ] {x y : Keyed κ} {k : κ} (hname : y.name = x.name)
    (hbucket : y.bucket k = x.bucket k) (s : Scan) (range : TimeRange) (p : Scan.Progress) :
    y.scan s k range p = x.scan s k range p := by
  rw [scan_eq_bucket, scan_eq_bucket, hname, hbucket]

/-- An index is told by its name, by the buckets that are there and by what they are. -/
theorem Index.Keyed.ext_bucket {κ : Type} [Ord κ] [Std.TransOrd κ] [Std.LawfulEqOrd κ] {x y : Keyed κ}
    (hname : y.name = x.name) (hhas : ∀ k, y.has k = x.has k) (hbucket : ∀ k, y.bucket k = x.bucket k) : y = x := by
  have hbuckets : y.buckets = x.buckets := by
    refine OrderedMap.ext_get? fun k => ?_
    cases hk : x.has k with
    | true => rw [get?_of_has hk, get?_of_has ((hhas k).trans hk), hbucket]
    | false => rw [has_eq_false_iff.mp hk, has_eq_false_iff.mp ((hhas k).trans hk)]
  cases x
  cases y
  rw [mk.injEq]
  exact ⟨hname, hbuckets⟩

namespace TraceTables

/-- Two tables that differ in unused buckets at most. -/
structure SameUse (t t' : TraceTables) : Prop where
  settings : t'.settings = t.settings
  watermark : t'.watermark = t.watermark
  traces : t'.traces = t.traces
  width : t'.time.width = t.time.width
  names : t'.names = t.names
  bucketAt : ∀ s, t'.bucketAt s = t.bucketAt s
  listed : t.Listed
  listed' : t'.Listed

variable {t t' u u' : TraceTables} {r : Trace} {d : Dimension} {s : Slot}

/-- To prune a bucket is to remove an unused one at most. -/
theorem sameUse_pruneAt (hl : t.Listed) : t.SameUse (t.pruneAt r d) where
  settings := pruneAt_framed.settings
  watermark := pruneAt_framed.watermark
  traces := pruneAt_framed.traces
  width := pruneAt_framed.width
  names := names_pruneAt
  bucketAt _ := bucketAt_pruneAt
  listed := hl
  listed' := pruneAt_listed hl

namespace SameUse

theorem refl (hl : t.Listed) : t.SameUse t := ⟨rfl, rfl, rfl, rfl, rfl, fun _ => rfl, hl, hl⟩

theorem symm (h : t.SameUse t') : t'.SameUse t :=
  ⟨h.settings.symm, h.watermark.symm, h.traces.symm, h.width.symm, h.names.symm, fun s => (h.bucketAt s).symm,
    h.listed', h.listed⟩

theorem trans (h : t.SameUse t') (h' : t'.SameUse u) : t.SameUse u :=
  ⟨h'.settings.trans h.settings, h'.watermark.trans h.watermark, h'.traces.trans h.traces, h'.width.trans h.width,
    h'.names.trans h.names, fun s => (h'.bucketAt s).trans (h.bucketAt s), h.listed, h'.listed'⟩

variable (h : t.SameUse t')
include h

theorem abreast : t.Abreast t' where
  width := h.width
  held s := by rw [h.bucketAt]
  empty s := by rw [h.bucketAt]

theorem eq_of_hasAt (hhas : ∀ s, t'.hasAt s = t.hasAt s) : t' = t := by
  have hnames := h.names
  simp only [TraceTables.names, List.cons.injEq, and_true] at hnames
  obtain ⟨htime, haddress, hcallsign, hsquawk⟩ := hnames
  have hdirectory : t'.time.directory = t.time.directory := by
    refine OrderedSet.ext fun n => ?_
    rw [h.listed' n, h.listed n, hhas]
  obtain ⟨hsettings, hwatermark, htraces, hwidth, -, hbucket, -, -⟩ := h
  have haddress := Index.Keyed.ext_bucket haddress (fun a => hhas (.address a)) fun a => hbucket (.address a)
  have hcallsign := Index.Keyed.ext_bucket hcallsign (fun c => hhas (.callsign c)) fun c => hbucket (.callsign c)
  have hsquawk := Index.Keyed.ext_bucket hsquawk (fun c => hhas (.squawk c)) fun c => hbucket (.squawk c)
  have hsegments := Index.Keyed.ext_bucket htime (fun n => hhas (.time n)) fun n => hbucket (.time n)
  obtain ⟨settings, watermark, traces, ⟨width, segments, directory, hpos⟩, address, callsign, squawk⟩ := t
  obtain ⟨settings', watermark', traces', ⟨width', segments', directory', hpos'⟩, address', callsign', squawk'⟩ := t'
  simp only at *
  subst hsettings hwatermark htraces hwidth hdirectory haddress hcallsign hsquawk hsegments
  rfl

theorem reserved (w : Watermark) : SameUse { t with watermark := w } { t' with watermark := w } :=
  ⟨h.settings, rfl, h.traces, h.width, h.names, h.bucketAt, h.listed, h.listed'⟩

theorem kept (traces : OrderedMap RecordId Trace) : SameUse { t with traces } { t' with traces } :=
  ⟨h.settings, h.watermark, rfl, h.width, h.names, h.bucketAt, h.listed, h.listed'⟩

/-- An operation on the indexes is told by the buckets that it leaves. -/
theorem framed (hu : Framed t u) (hu' : Framed t' u') (hnames : u.names = t.names) (hnames' : u'.names = t'.names)
    (hbucket : ∀ s, u'.bucketAt s = u.bucketAt s) (hl : u.Listed) (hl' : u'.Listed) : u.SameUse u' where
  settings := hu'.settings.trans (h.settings.trans hu.settings.symm)
  watermark := hu'.watermark.trans (h.watermark.trans hu.watermark.symm)
  traces := hu'.traces.trans (h.traces.trans hu.traces.symm)
  width := hu'.width.trans (h.width.trans hu.width.symm)
  names := hnames'.trans (h.names.trans hnames.symm)
  bucketAt := hbucket
  listed := hl
  listed' := hl'

theorem lockAt (hl : t.lockAt r d = .ok u) (hl' : t'.lockAt r d = .ok u') : u.SameUse u' := by
  refine h.framed (lockAt_framed hl) (lockAt_framed hl') (names_of_lockAt hl) (names_of_lockAt hl') (fun s => ?_)
    (lockAt_listed hl h.listed) (lockAt_listed hl' h.listed')
  rw [bucketAt_of_lockAt hl, bucketAt_of_lockAt hl', h.width, h.bucketAt]

/-- A key is put into a bucket that is held, so it is there in both. -/
theorem putAt (i : RecordId)
    (hheld : ∀ s, Slot.of? t.time.width r d = some s → (t.bucketAt s).held = true) :
    (t.putAt r ⟨r.time, i⟩ d).SameUse (t'.putAt r ⟨r.time, i⟩ d) := by
  refine h.framed (putAt_framed _) (putAt_framed _) (names_putAt _) (names_putAt _) (fun s => ?_)
    (putAt_listed rfl (fun s hs => hasAt_of_held (hheld s hs)) h.listed)
    (putAt_listed rfl (fun s hs => hasAt_of_held ?_) h.listed')
  · rw [bucketAt_putAt rfl, bucketAt_putAt rfl, h.width, h.bucketAt]
  · rw [h.bucketAt]
    exact hheld s (h.width ▸ hs)

theorem releaseAt : (t.releaseAt r d).SameUse (t'.releaseAt r d) := by
  refine h.framed releaseAt_framed releaseAt_framed names_releaseAt names_releaseAt (fun s => ?_)
    (releaseAt_listed h.listed) (releaseAt_listed h.listed')
  rw [bucketAt_releaseAt, bucketAt_releaseAt, h.width, h.bucketAt]

theorem pruneAt : (t.pruneAt r d).SameUse (t'.pruneAt r d) :=
  (sameUse_pruneAt h.listed).symm.trans (h.trans (sameUse_pruneAt h.listed'))

theorem get?_eq (i : RecordId) : t'.get? i = t.get? i := by
  rw [TraceTables.get?, TraceTables.get?, h.watermark, h.traces]

theorem scan_eq (s : Index.Scan) (range : TimeRange) (p : Index.Scan.Progress) (path : AccessPath) :
    t'.scan s range p path = t.scan s range p path := by
  have hnames := h.names
  simp only [TraceTables.names, List.cons.injEq, and_true] at hnames
  obtain ⟨htime, haddress, hcallsign, hsquawk⟩ := hnames
  cases path with
  | address a => exact Index.Keyed.scan_congr haddress (h.bucketAt (.address a)) s range p
  | callsign c => exact Index.Keyed.scan_congr hcallsign (h.bucketAt (.callsign c)) s range p
  | squawk c => exact Index.Keyed.scan_congr hsquawk (h.bucketAt (.squawk c)) s range p
  | time =>
    have hsegments := Index.Time.filter_used_eq range h.listed h.listed' h.width fun n => h.abreast.used_eq (.time n)
    have hsegment : (fun p n => t'.time.segments.scan s n range p) = fun p n => t.time.segments.scan s n range p :=
      funext fun p => funext fun n => Index.Keyed.scan_congr htime (h.bucketAt (.time n)) s range p
    simp only [TraceTables.scan]
    rw [Index.Time.scan_eq_used, Index.Time.scan_eq_used, hsegments, hsegment]

theorem query_eq (path : AccessPath) (range : TimeRange) (cancelled : Nat → Bool) :
    t'.query path range cancelled = t.query path range cancelled := by
  have hbegin : t'.beginScan cancelled = t.beginScan cancelled := by
    rw [beginScan, beginScan, h.watermark, h.settings]
  have hresolve (ks : List Index.Key) : t'.resolve ks = t.resolve ks := by rw [resolve, resolve, h.traces]
  rw [query, query, hbegin, h.scan_eq]
  simp only [hresolve]

end SameUse

theorem sameUse_prune (hl : t.Listed) : t.SameUse (t.prune r) := by
  have key (ds : List Dimension) (t : TraceTables) (hl : t.Listed) :
      t.SameUse (ds.foldl (fun t d => t.pruneAt r d) t) := by
    induction ds generalizing t with
    | nil => exact .refl hl
    | cons d ds ih => exact (sameUse_pruneAt hl).trans (ih _ (pruneAt_listed hl))
  exact key Dimension.all t hl

end TraceTables

namespace Interleaving

/-- Two states with the same appends under way, on tables that differ in unused buckets at most. -/
structure State.SameUse (σ σ' : State) : Prop where
  appends : σ'.appends = σ.appends
  tables : σ.tables.SameUse σ'.tables

section

variable {t t' u : TraceTables} {r : Trace} {g x : Stage}

theorem Advance.sameUse (h : Advance r t g u x) (ht : t.SameUse t')
    (hheld : ∀ d ∈ g.held, ∀ s, Slot.of? t.time.width r d = some s → (t.bucketAt s).held = true) :
    ∃ u', Advance r t' g u' x ∧ u.SameUse u' ∧ ∀ s, t'.hasAt s = t.hasAt s → u'.hasAt s = u.hasAt s := by
  cases h with
  | lock hl =>
    obtain ⟨u', hl'⟩ := ht.abreast.lockAt hl
    exact ⟨u', .lock hl', ht.lockAt hl hl', fun s hhas => ht.abreast.hasAt_lockAt hhas hl hl'⟩
  | timeout hl =>
    obtain ⟨e', hl'⟩ := ht.abreast.lockAt_error hl
    exact ⟨t', .timeout hl', ht, fun _ => id⟩
  | reserve hr =>
    obtain ⟨w, hw, rfl⟩ := TraceTables.reserve?_eq_some_iff.mp hr
    rw [← ht.watermark] at hw
    exact ⟨_, .reserve (TraceTables.reserve?_eq_some_iff.mpr ⟨w, hw, rfl⟩), ht.reserved w, fun _ => id⟩
  | exhaust hr =>
    rw [TraceTables.reserve?, Option.map_eq_none_iff, ← ht.watermark, ← Option.map_eq_none_iff] at hr
    exact ⟨t', .exhaust hr, ht, fun _ => id⟩
  | agree => exact ⟨t', .agree, ht, fun _ => id⟩
  | refuse => exact ⟨t', .refuse, ht, fun _ => id⟩
  | indexed => exact ⟨t', .indexed, ht, fun _ => id⟩
  | keep =>
    refine ⟨_, .keep, ?_, fun _ => id⟩
    rw [ht.traces]
    exact ht.kept _
  | index =>
    exact ⟨_, .index, ht.putAt _ fun s => hheld _ (Dimension.mem_all _) s,
      fun s hhas => ht.abreast.hasAt_putAt hhas _ _⟩
  | commit =>
    refine ⟨_, .commit, ?_, fun _ => id⟩
    rw [TraceTables.finish, TraceTables.finish, ht.watermark]
    exact ht.reserved _
  | retire =>
    refine ⟨_, .retire, ?_, fun _ => id⟩
    rw [TraceTables.finish, TraceTables.finish, ht.watermark]
    exact ht.reserved _
  | release hd =>
    refine ⟨_, .release hd, ht.releaseAt, fun s hhas => ?_⟩
    rw [TraceTables.hasAt_releaseAt, TraceTables.hasAt_releaseAt, hhas]
  | unlock hd =>
    refine ⟨_, .unlock hd, ht.releaseAt, fun s hhas => ?_⟩
    rw [TraceTables.hasAt_releaseAt, TraceTables.hasAt_releaseAt, hhas]
  | prune => exact ⟨_, .prune, ht.pruneAt, fun s hhas => ht.abreast.hasAt_pruneAt hhas⟩

end

namespace State.SameUse

variable {n n' : Nat} {σ σ' τ : State}

theorem refl (hl : σ.tables.Listed) : σ.SameUse σ := ⟨rfl, .refl hl⟩

theorem symm (h : σ.SameUse σ') : σ'.SameUse σ := ⟨h.appends.symm, h.tables.symm⟩

variable (h : σ.SameUse σ')
include h

theorem held (hs : σ.Sound ∨ σ'.Sound) {a : Append} (ha : a ∈ σ.appends) {s : Slot}
    (hhold : a.Holds σ.tables.time.width s) : (σ.tables.bucketAt s).held = true := by
  rcases hs with hs | hs
  · exact (hs.held s).mpr ⟨a, ha, hhold⟩
  · rw [← h.tables.bucketAt]
    refine (hs.held s).mpr ⟨a, h.appends ▸ ha, ?_⟩
    rwa [h.tables.width]

theorem step (hs : σ.Sound ∨ σ'.Sound) (hstep : Step σ τ) : ∃ τ', Step σ' τ' ∧ τ.SameUse τ' ∧
    ∀ s, σ'.tables.hasAt s = σ.tables.hasAt s → τ'.tables.hasAt s = τ.tables.hasAt s := by
  obtain ⟨t', as'⟩ := σ'
  obtain rfl : as' = σ.appends := h.appends
  cases hstep with
  | start r => exact ⟨_, .start r, ⟨rfl, h.tables⟩, fun _ => id⟩
  | advance ha =>
    obtain ⟨u', ha', hu, hhas⟩ := ha.sameUse h.tables fun d hd s hd' =>
      h.held hs (mem_middle.mpr (.inl rfl)) ⟨d, hd, hd'⟩
    exact ⟨_, .advance ha', ⟨rfl, hu⟩, hhas⟩

theorem run (hs : σ.Sound ∨ σ'.Sound) (hrun : Run σ τ) : ∃ τ', Run σ' τ' ∧ τ.SameUse τ' ∧
    ∀ s, σ'.tables.hasAt s = σ.tables.hasAt s → τ'.tables.hasAt s = τ.tables.hasAt s := by
  induction hrun with
  | refl => exact ⟨σ', .refl, h, fun _ => id⟩
  | tail hrun hstep ih =>
    obtain ⟨υ', hrun', hυ, hhas⟩ := ih
    obtain ⟨τ', hstep', hτ, hhas'⟩ := hυ.step (hs.imp (Run.sound hrun) (Run.sound hrun')) hstep
    exact ⟨τ', hrun'.tail hstep', hτ, fun s hs => hhas' s (hhas s hs)⟩

end State.SameUse
end Interleaving
end FlightTrace
