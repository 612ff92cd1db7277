import FlightTrace.Proofs.InterleavingInvariant
import FlightTrace.Proofs.WholeAppend

/-! What readers see while appends go on. An append finishes its number only after its last change to the
tables, so what stands below the mark is there as a whole or not at all, and stays as it is. -/
namespace FlightTrace

namespace TraceTables

/-- A trace that is kept under a number and whose key stands in the buckets of the trace and no others. -/
def Stored (t : TraceTables) (i : RecordId) (r : Trace) : Prop :=
  t.traces.get? i = some r ∧ ∀ s k, k.id = i →
    (k ∈ (t.bucketAt s).keys ↔ k.time = r.time ∧ ∃ d, Slot.of? t.time.width r d = some s)

/-- A number under which nothing is kept, and for which there is no key. -/
def Absent (t : TraceTables) (i : RecordId) : Prop :=
  t.traces.get? i = none ∧ ∀ s k, k.id = i → k ∉ (t.bucketAt s).keys

end TraceTables

namespace Interleaving

theorem Stage.id?_of_indexed {g : Stage} {d : Dimension} {i : RecordId} (h : (d, i) ∈ g.indexed) :
    g.id? = some i := by
  cases g with
  | indexing j done left =>
    obtain ⟨e, -, he⟩ := List.mem_map.mp h
    rw [id?, (Prod.mk.inj he).2]
  | releasing j held =>
    obtain ⟨e, -, he⟩ := List.mem_map.mp h
    rw [id?, (Prod.mk.inj he).2]
  | committed j =>
    obtain ⟨e, -, he⟩ := List.mem_map.mp h
    rw [id?, (Prod.mk.inj he).2]
  | _ => cases h

namespace State

def committed (σ : State) : List (RecordId × Trace) :=
  σ.appends.filterMap fun a =>
    match a.stage with
    | .committed i => some (i, a.record)
    | _ => none

/-- The keys of the committed traces below the mark that lie on a path and in a range. -/
def snapshot (σ : State) (range : TimeRange) (path : AccessPath) : List Index.Key :=
  ((σ.committed.filter fun p => p.1.val < σ.tables.watermark.visible &&
    (path.matchesTrace p.2 && range.contains p.2.time)).map
      fun p => ⟨p.2.time, p.1⟩).mergeSort (Ordered.leOn id)

variable {σ σ' : State} {i : RecordId} {r : Trace} {range : TimeRange} {path : AccessPath}

theorem mem_committed : (i, r) ∈ σ.committed ↔ ⟨r, .committed i⟩ ∈ σ.appends := by
  rw [committed, List.mem_filterMap]
  constructor
  · rintro ⟨⟨r', g⟩, ha, hg⟩
    cases g with
    | committed j =>
      cases hg
      exact ha
    | _ => cases hg
  · exact fun ha => ⟨_, ha, rfl⟩

theorem mem_snapshot {k : Index.Key} : k ∈ σ.snapshot range path ↔ ∃ r, (k.id, r) ∈ σ.committed ∧
    k.id.val < σ.tables.watermark.visible ∧ path.matchesTrace r = true ∧ range.contains k.time = true ∧
    r.time = k.time := by
  simp only [snapshot, List.mem_mergeSort, List.mem_map, List.mem_filter, Bool.and_eq_true,
    decide_eq_true_eq]
  constructor
  · rintro ⟨⟨i, r⟩, ⟨hc, hlt, hm, hr⟩, rfl⟩
    exact ⟨r, hc, hlt, hm, hr, rfl⟩
  · rintro ⟨r, hc, hlt, hm, hr, ht⟩
    refine ⟨(k.id, r), ⟨hc, hlt, hm, ht ▸ hr⟩, ?_⟩
    rw [ht]

namespace Sound

theorem committed_pairwise (h : σ.Sound) : σ.committed.Pairwise fun p q => p.1 ≠ q.1 := by
  refine (List.pairwise_filterMap).mpr (h.distinct.imp fun {a b} hab p hp q hq hpq => ?_)
  have hid {a : Append} {p : RecordId × Trace} (hp : (match a.stage with
      | .committed i => some (i, a.record)
      | _ => none) = some p) : a.stage.id? = some p.1 := by
    cases hg : a.stage with
    | committed i =>
      rw [hg] at hp
      cases hp
      rfl
    | _ =>
      rw [hg] at hp
      cases hp
  exact hab p.1 (hid hp) (hpq ▸ hid hq)

theorem time_sound (h : σ.Sound) : σ.tables.time.Sound where
  listed := h.listed
  placed n k hk := by
    obtain ⟨a, -, ⟨d, i⟩, -, hs, rfl⟩ := (h.indexed (.time n) k).mp hk
    have hd : Slot.dimension (.time n) = d := Slot.dimension_of? hs
    subst hd
    exact Slot.time.inj (Option.some.inj hs)

theorem mem_keysOn_iff (h : σ.Sound) {k : Index.Key} : k ∈ σ.tables.keysOn path ↔ ∃ a ∈ σ.appends,
    (path.dimension, k.id) ∈ a.stage.indexed ∧ path.matchesTrace a.record = true ∧
    a.record.time = k.time := by
  rw [TraceTables.mem_keysOn_iff h.time_sound, h.indexed]
  constructor
  · rintro ⟨a, ha, ⟨d, i⟩, hi, hs, rfl⟩
    have hd := (Slot.dimension_of? hs).symm.trans (path.dimension_slot _ _)
    subst hd
    exact ⟨a, ha, hi, AccessPath.matchesTrace_iff.mpr hs, rfl⟩
  · rintro ⟨a, ha, hi, hm, ht⟩
    refine ⟨a, ha, (path.dimension, k.id), hi, ?_, by rw [ht]⟩
    rw [← ht]
    exact AccessPath.matchesTrace_iff.mp hm

/-- A number below the mark belongs to an append that has come to its end. -/
theorem exists_of_lt_visible (h : σ.Sound) (hi : i.val < σ.tables.watermark.visible) :
    ∃ r, ⟨r, .committed i⟩ ∈ σ.appends ∨ ∃ held left, ⟨r, .undoing (some i) held left⟩ ∈ σ.appends := by
  obtain ⟨⟨r, g⟩, ha, j, hj, hji⟩ := (h.finished i.val).mp (.inl hi)
  obtain rfl := RecordId.eq_of_val_eq hji
  cases g with
  | committed i =>
    cases hj
    exact ⟨r, .inl ha⟩
  | undoing o held left =>
    cases hj
    exact ⟨r, .inr ⟨held, left, ha⟩⟩
  | _ => cases hj

theorem stored_of_committed (h : σ.Sound) (ha : ⟨r, .committed i⟩ ∈ σ.appends) :
    σ.tables.Stored i r := by
  refine ⟨(h.kept i r).mpr ⟨_, ha, rfl, rfl⟩, fun s k hk => ?_⟩
  rw [h.indexed]
  constructor
  · rintro ⟨b, hb, ⟨d, j⟩, hi, hs, hkj⟩
    have hij : j = i := by rw [← hk, hkj]
    subst hij
    have hab := h.eq_of_id? ha hb rfl (Stage.id?_of_indexed hi)
    subst hab
    exact ⟨by rw [hkj], d, hs⟩
  · rintro ⟨ht, d, hs⟩
    refine ⟨_, ha, (d, i), ?_, hs, ?_⟩
    · exact List.mem_map.mpr ⟨d, d.mem_all, rfl⟩
    · rw [← ht, ← hk]

theorem absent_of_undoing (h : σ.Sound) {held left : List Dimension}
    (ha : ⟨r, .undoing (some i) held left⟩ ∈ σ.appends) : σ.tables.Absent i := by
  constructor
  · rw [Option.eq_none_iff_forall_ne_some]
    intro x hx
    obtain ⟨b, hb, hbi, -⟩ := (h.kept i x).mp hx
    have hab := h.eq_of_id? ha hb rfl (Stage.id?_of_kept? hbi)
    subst hab
    cases hbi
  · intro s k hk hmem
    obtain ⟨b, hb, ⟨d, j⟩, hi, -, hkj⟩ := (h.indexed s k).mp hmem
    have hij : j = i := by rw [← hk, hkj]
    subst hij
    have hab := h.eq_of_id? ha hb rfl (Stage.id?_of_indexed hi)
    subst hab
    cases hi

end Sound
end State

variable {σ σ' : State} {i : RecordId} {r : Trace} {range : TimeRange} {path : AccessPath}

theorem Run.committed (h : Run σ σ') (ha : ⟨r, .committed i⟩ ∈ σ.appends) :
    ⟨r, .committed i⟩ ∈ σ'.appends := by
  induction h with
  | refl => exact ha
  | tail _ hstep ih =>
    cases hstep with
    | start x => exact List.mem_append_left _ ih
    | advance hadv =>
      rcases List.mem_append.mp ih with ih | ih
      · exact List.mem_append_left _ ih
      · rcases List.mem_cons.mp ih with ih | ih
        · cases ih
          cases hadv
        · exact List.mem_append_right _ (List.mem_cons_of_mem _ ih)

theorem Run.undoing {o : Option RecordId} (h : Run σ σ')
    (ha : ∃ held left, ⟨r, .undoing o held left⟩ ∈ σ.appends) :
    ∃ held left, ⟨r, .undoing o held left⟩ ∈ σ'.appends := by
  induction h with
  | refl => exact ha
  | tail _ hstep ih =>
    obtain ⟨held, left, ih⟩ := ih
    cases hstep with
    | start x => exact ⟨held, left, List.mem_append_left _ ih⟩
    | advance hadv =>
      rcases List.mem_append.mp ih with ih | ih
      · exact ⟨held, left, List.mem_append_left _ ih⟩
      · rcases List.mem_cons.mp ih with ih | ih
        · cases ih
          cases hadv with
          | unlock hd => exact ⟨_, _, List.mem_append_right _ List.mem_cons_self⟩
          | prune => exact ⟨_, _, List.mem_append_right _ List.mem_cons_self⟩
        · exact ⟨held, left, List.mem_append_right _ (List.mem_cons_of_mem _ ih)⟩

/-- The keys below an earlier mark are those of the traces that had committed by then. -/
theorem Run.filter_keysOn (h : Run σ σ') (hs : σ.Sound) (range : TimeRange) (path : AccessPath) :
    ((σ'.tables.keysOn path).filter fun k => range.contains k.time).filter
      (fun k => k.id.val < σ.tables.watermark.visible) = σ.snapshot range path := by
  have hs' := h.sound hs
  have hnodup : ((σ.committed.filter fun p => p.1.val < σ.tables.watermark.visible &&
      (path.matchesTrace p.2 && range.contains p.2.time)).map
        fun p => (⟨p.2.time, p.1⟩ : Index.Key)).Nodup := by
    refine List.pairwise_map.mpr ((hs.committed_pairwise.filter _).imp fun hpq heq => ?_)
    exact hpq (congrArg Index.Key.id heq)
  refine Ordered.eq_of_ascending_compare
    (((TraceTables.keysOn_ascending hs'.time_sound path).filter _).filter _)
    (Ordered.mergeSort_ascending hnodup) fun k => ?_
  refine Iff.trans ?_ State.mem_snapshot.symm
  simp only [List.mem_filter, hs'.mem_keysOn_iff, decide_eq_true_eq]
  constructor
  · rintro ⟨⟨⟨a, ha, hi, hm, ht⟩, hr⟩, hlt⟩
    obtain ⟨r, hc | hu⟩ := hs.exists_of_lt_visible hlt
    · have hab := hs'.eq_of_id? ha (h.committed hc) (Stage.id?_of_indexed hi) rfl
      subst hab
      exact ⟨r, State.mem_committed.mpr hc, hlt, hm, hr, ht⟩
    · obtain ⟨held, left, hb⟩ := h.undoing hu
      have hab := hs'.eq_of_id? ha hb (Stage.id?_of_indexed hi) rfl
      subst hab
      cases hi
  · rintro ⟨r, hc, hlt, hm, hr, ht⟩
    refine ⟨⟨⟨_, h.committed (State.mem_committed.mp hc), ?_, hm, ht⟩, hr⟩, hlt⟩
    exact List.mem_map.mpr ⟨path.dimension, path.dimension.mem_all, rfl⟩

/-- However appends interleave, a record below the mark is in the table of traces and in each index that it
belongs to, or in none of them. A scan begun in one state and made in a later one, on buckets that nobody
holds, finds the traces that had committed below the mark when it began. -/
theorem readers_see_whole_records (settings : Settings) (h : Run (.start settings) σ) :
    (∀ i : RecordId, i.val < σ.tables.watermark.visible → ∃ a ∈ σ.appends,
      (a.stage = .committed i ∧ σ.tables.Stored i a.record) ∨
      ((∃ held left, a.stage = .undoing (some i) held left) ∧ σ.tables.Absent i)) ∧
    ∀ σ', Run σ σ' → ∀ range path,
      (∀ s ∈ σ'.tables.scanned range path, (σ'.tables.bucketAt s).held = false) →
      ∀ cancelled p, p.stop = none →
        let q := σ'.tables.scan (σ.tables.beginScan cancelled) range p path
        (q.stop = none → q.found = p.found ++ σ.snapshot range path) ∧
        ((∀ n, cancelled n = false) → q.stop = none) := by
  have hs := h.sound (State.start_sound settings)
  constructor
  · intro i hi
    obtain ⟨r, hc | ⟨held, left, hu⟩⟩ := hs.exists_of_lt_visible hi
    · exact ⟨_, hc, .inl ⟨rfl, hs.stored_of_committed hc⟩⟩
    · exact ⟨_, hu, .inr ⟨⟨held, left, rfl⟩, hs.absent_of_undoing hu⟩⟩
  · intro σ' h' range path hfree cancelled p hp q
    have hscan : q = _ := TraceTables.scan_eq (h'.sound hs).time_sound hfree _ p
    have hfound := h'.filter_keysOn hs range path
    rcases Index.Scan.foldl_examine (σ.tables.beginScan cancelled)
      ((σ'.tables.keysOn path).filter fun k => range.contains k.time) hp with ⟨hi, hstop⟩ | ⟨-, hall⟩
    · rw [hscan, hstop]
      exact ⟨fun hn => absurd hn (by simp),
        fun hnever => absurd hi (Index.Scan.not_interrupted _ hnever _ _)⟩
    · rw [hscan, hall]
      exact ⟨fun _ => congrArg (p.found ++ ·) hfound, fun _ => rfl⟩

/-- One append has committed when the scan begins; another has begun when it is made. -/
theorem readers_see_whole_records_between_appends : ∃ σ σ' : State, Run (.start {}) σ ∧ Run σ σ' ∧
    σ.appends.length = 1 ∧ σ'.appends.length = 2 ∧
    (σ'.tables.scan (σ.tables.beginScan fun _ => false) .all {} (.address ⟨1, by decide⟩)).found =
      [⟨default, .min⟩] := by
  let r : Trace := { time := default, address := ⟨1, by decide⟩ }
  let t := ((TraceTables.ofSettings {}).appendWith (Hook.beside (Hook.agree (κ := Empty))) r ()).2.2
  obtain ⟨o, hrun⟩ := run_appendWith [] (State.start_sound {}).listed
    (show (TraceTables.ofSettings {}).appendWith (Hook.beside (Hook.agree (κ := Empty))) r () =
      (.ok .min, (), t) from rfl)
  have hnext : Run ⟨t, [⟨r, .committed .min⟩]⟩ ⟨t, [⟨r, .committed .min⟩, .start r]⟩ :=
    Relation.ReflTransGen.single (.start r)
  refine ⟨_, _, hrun, hnext, rfl, rfl, ?_⟩
  have hseen := (readers_see_whole_records {} hrun).2 _ hnext .all (.address r.address) (by decide)
    (fun _ => false) {} rfl
  rw [hseen.1 (hseen.2 fun _ => rfl)]
  exact List.mergeSort_singleton (⟨default, .min⟩ : Index.Key)

end Interleaving
end FlightTrace
