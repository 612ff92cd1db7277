import FlightTrace.Proofs.Renumbering
import FlightTrace.Proofs.TraceContents
import FlightTrace.Proofs.Visibility

/-! What readers see of two histories in step. They see the same traces, and wait for the same buckets, for the same
keys stand in the same order in each bucket and the marks stand at the same place among them. -/
namespace FlightTrace

namespace Interleaving

variable {R : RecordId → RecordId → Prop}

theorem exists_of_rel {i : RecordId} {o : Option RecordId} (h : Option.Rel R (some i) o) :
    ∃ i', o = some i' ∧ R i i' := by
  cases h with
  | some h => exact ⟨_, rfl, h⟩

/-- Two scans that show the same records. -/
structure ScansAlike (R : RecordId → RecordId → Prop) (s s' : Index.Scan) : Prop where
  watermark : ∀ {i i' : RecordId}, R i i' → (i'.val < s'.watermark ↔ i.val < s.watermark)
  lockTimeout : s'.lockTimeout = s.lockTimeout
  interval : s'.interval = s.interval
  cancelled : s'.cancelled = s.cancelled

structure ProgressAlike (R : RecordId → RecordId → Prop) (p p' : Index.Scan.Progress) : Prop where
  scanned : p'.scanned = p.scanned
  found : List.Forall₂ (KeysAlike R) p.found p'.found
  stop : p'.stop = p.stop

section

variable {s s' : Index.Scan} {p p' : Index.Scan.Progress} {range : TimeRange}

theorem ProgressAlike.examine (hs : ScansAlike R s s') {k k' : Index.Key} (hk : KeysAlike R k k')
    (h : ProgressAlike R p p') : ProgressAlike R (s.examine p k) (s'.examine p' k') := by
  obtain ⟨hscanned, hfound, hstop⟩ := h
  simp only [Index.Scan.examine, hstop, hscanned, hs.interval, hs.cancelled, hs.watermark hk.2]
  split
  · exact ⟨hscanned, hfound, hstop⟩
  · split
    · exact ⟨rfl, hfound, rfl⟩
    · split
      · exact ⟨rfl, List.rel_append hfound (.cons hk .nil), rfl⟩
      · exact ⟨rfl, hfound, rfl⟩

theorem ProgressAlike.foldl_examine (hs : ScansAlike R s s') {ks ks' : List Index.Key}
    (hks : List.Forall₂ (KeysAlike R) ks ks') (h : ProgressAlike R p p') :
    ProgressAlike R (ks.foldl s.examine p) (ks'.foldl s'.examine p') := by
  induction hks generalizing p p' with
  | nil => exact h
  | cons hk _ ih => exact ih (h.examine hs hk)

theorem ProgressAlike.scan {κ : Type} [Ord κ] [Std.TransOrd κ] {x x' : Index.Keyed κ} {c : κ}
    (hname : x'.name = x.name) (hheld : (x'.bucket c).held = (x.bucket c).held)
    (hkeys : List.Forall₂ (KeysAlike R) (x.bucket c).keys.toList (x'.bucket c).keys.toList)
    (hs : ScansAlike R s s') (h : ProgressAlike R p p') :
    ProgressAlike R (x.scan s c range p) (x'.scan s' c range p') := by
  rw [Index.Keyed.scan_eq_bucket, Index.Keyed.scan_eq_bucket, h.stop, hname, hheld, hs.lockTimeout]
  cases hstop : p.stop with
  | some e => exact h
  | none =>
    cases hr : Index.KeyRange.ofTimeRange? range with
    | none => exact h
    | some r =>
      cases (x.bucket c).held with
      | true => exact ⟨h.scanned, h.found, rfl⟩
      | false =>
        refine ProgressAlike.foldl_examine hs (List.rel_filter ?_ hkeys) h
        intro k k' hk
        simp only
        rw [Index.KeyRange.contains_of_ofTimeRange? hr, Index.KeyRange.contains_of_ofTimeRange? hr, hk.1]

theorem ProgressAlike.foldl_scan {x x' : Index.Keyed Int} (hname : x'.name = x.name)
    (hheld : ∀ m, (x'.bucket m).held = (x.bucket m).held)
    (hkeys : ∀ m, List.Forall₂ (KeysAlike R) (x.bucket m).keys.toList (x'.bucket m).keys.toList)
    (hs : ScansAlike R s s') (ms : List Int) (h : ProgressAlike R p p') : ProgressAlike R
      (ms.foldl (fun p m => x.scan s m range p) p) (ms.foldl (fun p m => x'.scan s' m range p) p') := by
  induction ms generalizing p p' with
  | nil => exact h
  | cons m ms ih => exact ih (.scan hname (hheld m) (hkeys m) hs h)

end

namespace State.Alike

variable {settings : Settings} {n n' : Nat} {σ σ' : State}

variable (h : σ.Alike settings n n' σ')
include h

theorem forall₂_keys (s : Slot) : List.Forall₂ (KeysAlike (Corresponds n n'))
    (σ.tables.bucketAt s).keys.toList (σ'.tables.bucketAt s).keys.toList := by
  refine Ordered.forall₂_of_ascending ?_ (σ.tables.bucketAt s).keys.ascending
    (σ'.tables.bucketAt s).keys.ascending (fun k hk => h.exists_key hk) fun k' hk' => ?_
  · intro k l k' l' hk hl
    rw [Index.Key.compare_eq, Index.Key.compare_eq, hk.1, hl.1, hk.2.compare_eq hl.2]
  · obtain ⟨k, hk, hkk⟩ := h.symm.exists_key hk'
    exact ⟨k, hk, hkk.1.symm, hkk.2.symm⟩

theorem exists_kept {i : RecordId} {r : Trace} (hi : σ.tables.traces.get? i = some r) :
    ∃ i', Corresponds n n' i i' ∧ σ'.tables.traces.get? i' = some r := by
  obtain ⟨a, ha, hk, rfl⟩ := (h.sound.kept i r).mp hi
  rcases h.appends.exists_of_mem ha with ⟨o, ho⟩ | ⟨a', ha', hr, hg⟩
  · rw [ho] at hk
    cases hk
  · have hk' := hg.kept?
    rw [hk] at hk'
    obtain ⟨i', hi', hii⟩ := exists_of_rel hk'
    exact ⟨i', hii, (h.sound'.kept i' _).mpr ⟨a', ha', hi', hr⟩⟩

theorem kept_eq {i i' : RecordId} (hi : Corresponds n n' i i') :
    σ'.tables.traces.get? i' = σ.tables.traces.get? i := by
  have hkept {n n' : Nat} {σ σ' : State} (h : σ.Alike settings n n' σ') {i i' : RecordId}
      (hi : Corresponds n n' i i') {r : Trace} (hr : σ.tables.traces.get? i = some r) :
      σ'.tables.traces.get? i' = some r := by
    obtain ⟨j', hj, hr'⟩ := h.exists_kept hr
    rwa [hi.eq_of_eq hj]
  exact Option.ext fun r => ⟨hkept h.symm hi.symm, hkept h hi⟩

theorem size_eq : σ'.tables.traces.size = σ.tables.traces.size := by
  have hkeys : List.Forall₂ (Corresponds n n') σ.tables.traces.keys σ'.tables.traces.keys := by
    have hex {n n' : Nat} {σ σ' : State} (h : σ.Alike settings n n' σ') {i : RecordId}
        (hi : i ∈ σ.tables.traces.keys) : ∃ i' ∈ σ'.tables.traces.keys, Corresponds n n' i i' := by
      obtain ⟨r, hr⟩ := Option.isSome_iff_exists.mp (OrderedMap.mem_keys_iff.mp hi)
      obtain ⟨i', hii, hr'⟩ := h.exists_kept hr
      exact ⟨i', OrderedMap.mem_keys_iff.mpr (Option.isSome_iff_exists.mpr ⟨r, hr'⟩), hii⟩
    refine Ordered.forall₂_of_ascending (fun hi hj => hi.compare_eq hj) OrderedMap.keys_ascending
      OrderedMap.keys_ascending (fun i hi => hex h hi) fun i' hi' => ?_
    obtain ⟨i, hi, hii⟩ := hex h.symm hi'
    exact ⟨i, hi, hii.symm⟩
  rw [OrderedMap.size_eq_length_keys, OrderedMap.size_eq_length_keys, hkeys.length_eq]

theorem lt_reserved_iff {i i' : RecordId} (hi : Corresponds n n' i i') :
    i'.val < σ'.tables.watermark.reserved ↔ i.val < σ.tables.watermark.reserved := by
  obtain ⟨-, -, -, hn, hn', hreserved⟩ := h
  rcases hi with ⟨hi, hi', rfl⟩ | ⟨hi, hi', he⟩ <;> omega

theorem visible_le {i i' : RecordId} (hi : Corresponds n n' i i') (hlt : i.val < σ.tables.watermark.reserved)
    (hle : σ.tables.watermark.visible ≤ i.val) : σ'.tables.watermark.visible ≤ i'.val := by
  obtain ⟨a, ha, j, hj, hji, hopen⟩ := (h.sound.visible_le_iff hlt).mp hle
  refine (h.sound'.visible_le_iff ((h.lt_reserved_iff hi).mpr hlt)).mpr ?_
  rcases h.appends.exists_of_mem ha with ⟨o, ho⟩ | ⟨a', ha', -, hg⟩
  · rw [ho] at hj hopen
    cases hj.symm.trans hopen
  · have hid := hg.id?
    have hfinished := hg.finished?
    rw [hj] at hid
    rw [hopen] at hfinished
    obtain ⟨j', hj', hjj⟩ := exists_of_rel hid
    refine ⟨a', ha', j', hj', (hjj.le_iff hi).mp hji, ?_⟩
    cases hf : a'.stage.finished? with
    | none => rfl
    | some k =>
      rw [hf] at hfinished
      cases hfinished

/-- The marks stand at the same place among the numbers. -/
theorem lt_visible_iff {i i' : RecordId} (hi : Corresponds n n' i i') :
    i'.val < σ'.tables.watermark.visible ↔ i.val < σ.tables.watermark.visible := by
  rw [← not_le, ← not_le, not_iff_not]
  have hiff := h.lt_reserved_iff hi
  by_cases hlt : i.val < σ.tables.watermark.reserved
  · exact ⟨h.symm.visible_le hi.symm (hiff.mpr hlt), h.visible_le hi hlt⟩
  · have hle := h.sound.visible_le_reserved
    have hle' := h.sound'.visible_le_reserved
    exact iff_of_true (hle'.trans (not_lt.mp (hlt ∘ hiff.mp))) (hle.trans (not_lt.mp hlt))

theorem get?_eq {i i' : RecordId} (hi : Corresponds n n' i i') : σ'.tables.get? i' = σ.tables.get? i := by
  rw [TraceTables.get?, TraceTables.get?, h.kept_eq hi, Watermark.isVisible, Watermark.isVisible,
    decide_eq_decide.mpr (h.lt_visible_iff hi)]

theorem scansAlike (cancelled : Nat → Bool) :
    ScansAlike (Corresponds n n') (σ.tables.beginScan cancelled) (σ'.tables.beginScan cancelled) where
  watermark := h.lt_visible_iff
  lockTimeout := congrArg Settings.lockTimeout h.settings_eq
  interval := congrArg Settings.cancelInterval h.settings_eq
  cancelled := rfl

theorem names_eq : σ'.tables.names = σ.tables.names := h.reached'.names_eq.trans h.reached.names_eq.symm

theorem scan (cancelled : Nat → Bool) (range : TimeRange) (path : AccessPath) :
    ProgressAlike (Corresponds n n') (σ.tables.scan (σ.tables.beginScan cancelled) range {} path)
      (σ'.tables.scan (σ'.tables.beginScan cancelled) range {} path) := by
  have hnames := h.names_eq
  simp only [TraceTables.names, List.cons.injEq, and_true] at hnames
  obtain ⟨htime, haddress, hcallsign, hsquawk⟩ := hnames
  have hs := h.scansAlike cancelled
  have hbegin : ProgressAlike (Corresponds n n') {} {} := ⟨rfl, .nil, rfl⟩
  have hheld := h.abreast.held
  cases path with
  | address a => exact .scan haddress (hheld (.address a)) (h.forall₂_keys (.address a)) hs hbegin
  | callsign c => exact .scan hcallsign (hheld (.callsign c)) (h.forall₂_keys (.callsign c)) hs hbegin
  | squawk c => exact .scan hsquawk (hheld (.squawk c)) (h.forall₂_keys (.squawk c)) hs hbegin
  | time =>
    have hsegments := Index.Time.filter_used_eq range h.sound.listed h.sound'.listed h.width_eq
      fun m => h.abreast.used_eq (.time m)
    simp only [TraceTables.scan]
    rw [Index.Time.scan_eq_used, Index.Time.scan_eq_used, hsegments]
    split
    · exact hbegin
    · exact .foldl_scan htime (fun m => hheld (.time m)) (fun m => h.forall₂_keys (.time m)) hs _ hbegin

theorem resolve_eq {ks ks' : List Index.Key} (hks : List.Forall₂ (KeysAlike (Corresponds n n')) ks ks') :
    σ'.tables.resolve ks' = σ.tables.resolve ks := by
  rw [TraceTables.resolve, TraceTables.resolve]
  induction hks with
  | nil => rfl
  | cons hk _ ih => rw [List.filterMap_cons, List.filterMap_cons, h.kept_eq hk.2, ih]

theorem query_eq (path : AccessPath) (range : TimeRange) (cancelled : Nat → Bool) :
    σ'.tables.query path range cancelled = σ.tables.query path range cancelled := by
  have hscan := h.scan cancelled range path
  rw [TraceTables.query, TraceTables.query]
  simp only [hscan.stop, h.resolve_eq hscan.found]

theorem inFlight_eq : σ'.tables.watermark.inFlight = σ.tables.watermark.inFlight := by
  have hcounts := h.appends.counts
  rw [← h.reached.counted.reserved, ← h.reached.counted.closed, ← h.reached'.counted.reserved,
    ← h.reached'.counted.closed, Watermark.closed, Watermark.closed] at hcounts
  rw [Watermark.inFlight, Watermark.inFlight]
  omega

theorem stats_eq (hhas : ∀ s, σ'.tables.hasAt s = σ.tables.hasAt s) : σ'.tables.stats = σ.tables.stats :=
  TraceTables.stats_eq_of_hasAt h.size_eq hhas h.inFlight_eq

end State.Alike
end Interleaving
end FlightTrace
