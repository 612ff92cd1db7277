import FlightTrace.Proofs.Queries

/-! When a committed record can be seen. The mark stops at the lowest number in flight. So a record stays hidden
after its append has returned, for as long as an append with a lower number goes on; once none does, it is
seen from then on. -/
namespace FlightTrace

namespace Index

variable {s : Scan} {p : Scan.Progress} {k : Key}

theorem Scan.lt_of_mem_examine {l : Key} (h : k ∈ (s.examine p l).found) :
    k ∈ p.found ∨ k.id.val < s.watermark := by
  unfold examine at h
  split at h
  · exact .inl h
  · simp only at h
    split at h
    · exact .inl h
    · split at h
      · rename_i hl
        rcases List.mem_append.mp h with h | h
        · exact .inl h
        · exact .inr (List.mem_singleton.mp h ▸ hl)
      · exact .inl h

theorem Scan.lt_of_mem_foldl_examine (keys : List Key) (h : k ∈ (keys.foldl s.examine p).found) :
    k ∈ p.found ∨ k.id.val < s.watermark := by
  induction keys generalizing p with
  | nil => exact .inl h
  | cons l ls ih => exact (ih h).elim Scan.lt_of_mem_examine .inr

theorem Keyed.lt_of_mem_scan {κ : Type} [Ord κ] [Std.TransOrd κ] {x : Keyed κ} {c : κ} {range : TimeRange}
    (h : k ∈ (x.scan s c range p).found) : k ∈ p.found ∨ k.id.val < s.watermark := by
  unfold scan at h
  split at h
  · split at h
    · exact .inl h
    · exact Scan.lt_of_mem_foldl_examine _ h
  · exact .inl h

theorem Time.lt_of_mem_scan {x : Time} {range : TimeRange} (h : k ∈ (x.scan s range p).found) :
    k ∈ p.found ∨ k.id.val < s.watermark := by
  unfold scan at h
  split at h
  · exact .inl h
  · generalize x.directory.toList.filter (x.reaches range) = ns at h
    induction ns generalizing p with
    | nil => exact .inl h
    | cons n ns ih => exact (ih h).elim Keyed.lt_of_mem_scan .inr

end Index

theorem TraceTables.lt_of_mem_scan {t : TraceTables} {s : Index.Scan} {p : Index.Scan.Progress} {k : Index.Key}
    {range : TimeRange} {path : AccessPath} (h : k ∈ (t.scan s range p path).found) :
    k ∈ p.found ∨ k.id.val < s.watermark := by
  cases path with
  | time => exact Index.Time.lt_of_mem_scan h
  | _ => exact Index.Keyed.lt_of_mem_scan h

namespace Interleaving

/-- Whether an append with a number below this one is in flight. -/
def State.Awaits (σ : State) (i : RecordId) : Prop :=
  ∃ a ∈ σ.appends, ∃ j, a.stage.id? = some j ∧ j.val < i.val ∧ a.stage.finished? = none

variable {σ σ' : State} {i : RecordId} {r : Trace} {range : TimeRange} {path : AccessPath}

theorem Advance.visible_le {t t' : TraceTables} {g g' : Stage} (h : Advance r t g t' g') :
    t.watermark.visible ≤ t'.watermark.visible := by
  rcases h.watermark_cases with ⟨i, hw, -⟩ | ⟨i, hw, -⟩ | ⟨hw, -⟩
  · rw [((Watermark.reserve?_eq_some_iff _).mp hw).2]
  · rw [hw]
    exact Watermark.le_advance _ _
  · rw [hw]

theorem Run.visible_le (h : Run σ σ') : σ.tables.watermark.visible ≤ σ'.tables.watermark.visible := by
  induction h with
  | refl => exact Nat.le_refl _
  | tail _ hstep ih =>
    cases hstep with
    | start r => exact ih
    | advance ha => exact ih.trans ha.visible_le

namespace State.Sound

theorem visible_le_reserved (h : σ.Sound) : σ.tables.watermark.visible ≤ σ.tables.watermark.reserved := by
  by_contra hlt
  obtain ⟨a, ha, j, hj, hn⟩ := (h.finished _).mp (.inl (Nat.not_le.mp hlt))
  exact absurd ((h.numbered _).mpr ⟨a, ha, j, Stage.id?_of_finished? hj, hn⟩) (Nat.lt_irrefl _)

/-- The mark is at a number that was given out, or short of it, if and only if an append in flight has this number
or a lower one. -/
theorem visible_le_iff (h : σ.Sound) (hi : i.val < σ.tables.watermark.reserved) :
    σ.tables.watermark.visible ≤ i.val ↔
      ∃ a ∈ σ.appends, ∃ j, a.stage.id? = some j ∧ j.val ≤ i.val ∧ a.stage.finished? = none := by
  constructor
  · intro hle
    have hopen : ¬σ.tables.watermark.Finished σ.tables.watermark.visible := by
      rintro (hv | hv)
      · exact absurd hv (Nat.lt_irrefl _)
      · exact absurd (h.waiting _ hv) (Nat.lt_irrefl _)
    obtain ⟨a, ha, j, hj, hv⟩ := (h.numbered _).mp (Nat.lt_of_le_of_lt hle hi)
    refine ⟨a, ha, j, hj, hv ▸ hle, ?_⟩
    rw [Option.eq_none_iff_forall_ne_some]
    intro k hk
    have hkj : k = j := Option.some.inj ((Stage.id?_of_finished? hk).symm.trans hj)
    exact hopen (hv ▸ (h.finished j.val).mpr ⟨a, ha, k, hk, by rw [hkj]⟩)
  · rintro ⟨a, ha, j, hj, hji, hopen⟩
    by_contra hlt
    exact h.not_finished ha hj hopen (.inl (Nat.lt_of_le_of_lt hji (Nat.not_le.mp hlt)))

theorem lt_visible_iff (h : σ.Sound) (hi : ⟨r, .committed i⟩ ∈ σ.appends) :
    i.val < σ.tables.watermark.visible ↔ ¬σ.Awaits i := by
  rw [← not_le, h.visible_le_iff ((h.numbered i.val).mpr ⟨_, hi, i, rfl, rfl⟩), not_iff_not]
  refine exists_congr fun a => and_congr_right fun ha => exists_congr fun j => and_congr_right fun hj => ?_
  refine and_congr_left fun hopen => ⟨fun hle => Nat.lt_of_le_of_ne hle fun hji => ?_, Nat.le_of_lt⟩
  obtain rfl := RecordId.eq_of_val_eq hji
  obtain rfl := h.eq_of_id? ha hi hj rfl
  cases hopen

end State.Sound

/-- A record whose append has returned is read under its number and found by every query that it matches from
the moment on in which no append with a lower number is in flight. While one is, the record is hidden: neither is
it read under its number, nor does any scan find its key. -/
theorem committed_is_seen_unless_awaiting (settings : Settings) (h : Run (.start settings) σ)
    (hi : ⟨r, .committed i⟩ ∈ σ.appends) :
    (¬σ.Awaits i → ∀ σ', Run σ σ' → σ'.tables.get? i = some r ∧
      ∀ path range, path.matchesTrace r = true → range.contains r.time = true →
        (∀ s ∈ σ'.tables.scanned range path, (σ'.tables.bucketAt s).held = false) →
        ∀ cancelled,
          (∃ n, cancelled n = true) ∧ σ'.tables.query path range cancelled = .error .cancelled ∨
          ∃ rs, σ'.tables.query path range cancelled = .ok rs ∧ r ∈ rs) ∧
    (σ.Awaits i → σ.tables.get? i = none ∧
      ∀ path range cancelled,
        (⟨r.time, i⟩ : Index.Key) ∉ (σ.tables.scan (σ.tables.beginScan cancelled) range {} path).found) := by
  have hs := h.sound (State.start_sound settings)
  constructor
  · intro hnone σ' h'
    have hs' := h'.sound hs
    have hi' := h'.committed hi
    have hlt : i.val < σ'.tables.watermark.visible :=
      Nat.lt_of_lt_of_le ((hs.lt_visible_iff hi).mpr hnone) h'.visible_le
    have hkept : σ'.tables.traces.get? i = some r := (hs'.stored_of_committed hi').1
    refine ⟨?_, fun path range hm hr hfree cancelled => ?_⟩
    · rw [TraceTables.get?, Watermark.isVisible, decide_eq_true hlt, if_pos rfl, hkept]
    · have hkey : (⟨r.time, i⟩ : Index.Key) ∈ σ'.snapshot range path :=
        State.mem_snapshot.mpr ⟨r, State.mem_committed.mpr hi', hlt, hm, hr, rfl⟩
      cases hc : cancelled 0 with
      | true => exact .inl ⟨⟨0, hc⟩, by rw [TraceTables.query, hc, if_pos rfl]⟩
      | false =>
        rcases hs'.query_cases hfree cancelled hc with ⟨⟨n, -, -, -, hn⟩, hq⟩ | ⟨-, hq⟩
        · exact .inl ⟨⟨n, hn⟩, hq⟩
        · exact .inr ⟨_, hq, List.mem_filterMap.mpr ⟨_, hkey, hkept⟩⟩
  · intro hwait
    have hle : ¬i.val < σ.tables.watermark.visible := fun hlt => (hs.lt_visible_iff hi).mp hlt hwait
    refine ⟨?_, fun path range cancelled hmem => ?_⟩
    · rw [TraceTables.get?, Watermark.isVisible, decide_eq_false hle, if_neg Bool.false_ne_true]
    · rcases TraceTables.lt_of_mem_scan hmem with hmem | hlt
      · cases hmem
      · exact hle hlt

/-! Two records of different aircraft and days. The second is appended while the first asks its hook. -/

namespace Overtaking

def lower : Trace := { time := default, address := ⟨1, by decide⟩ }

def upper : Trace := { time := ⟨86400, 0, by decide, by decide⟩, address := ⟨2, by decide⟩ }

def one : RecordId := ⟨1, by decide⟩

def begun : TraceTables :=
  match (TraceTables.ofSettings {}).start lower with
  | .ok p => p.2
  | .error _ => .ofSettings {}

def passed : TraceTables := (begun.appendWith (Hook.beside (Hook.agree (κ := Empty))) upper ()).2.2

theorem appendWith_begun :
    begun.appendWith (Hook.beside (Hook.agree (κ := Empty))) upper () = (.ok one, (), passed) := rfl

theorem run_begun : Run (.start {}) ⟨begun, [⟨lower, .asking .min⟩]⟩ := by
  have hstart : (TraceTables.ofSettings {}).start lower = .ok (.min, begun) := rfl
  have hbegin : Run (.start {}) ⟨.ofSettings {}, [.start lower]⟩ := Relation.ReflTransGen.single (.start lower)
  exact hbegin.trans ((quiet_start_ok hstart).run [] [])

theorem run_passed : Run (.start {}) ⟨passed, [⟨lower, .asking .min⟩, ⟨upper, .committed one⟩]⟩ := by
  obtain ⟨o, hrun⟩ := run_appendWith [⟨lower, .asking .min⟩]
    (run_begun.sound (State.start_sound {})).listed appendWith_begun
  exact run_begun.trans hrun

theorem run_closed : Run (.start {})
    ⟨passed.commit .min lower, [⟨lower, .committed .min⟩, ⟨upper, .committed one⟩]⟩ :=
  (run_passed.trans (Run.advance [] .agree _)).trans ((quiet_commit .min).run [] _)

end Overtaking

open Overtaking

/-- The second append has returned its number, but its record is not there yet. -/
theorem appended_record_is_hidden : ∃ t i t', Run (.start {}) ⟨t, [⟨lower, .asking .min⟩]⟩ ∧
    t.appendWith (Hook.beside (Hook.agree (κ := Empty))) upper () = (.ok i, (), t') ∧
    t'.get? i = none ∧
    (AccessPath.address upper.address).matchesTrace upper = true ∧ TimeRange.all.contains upper.time = true ∧
    (∀ s ∈ t'.scanned .all (.address upper.address), (t'.bucketAt s).held = false) ∧
    t'.query (.address upper.address) .all (fun _ => false) = .ok [] :=
  ⟨begun, one, passed, run_begun, appendWith_begun, rfl, rfl, rfl, by decide, rfl⟩

/-- The second record is hidden while the first append goes on, and seen once it has ended. -/
theorem overtaking_record_is_seen_in_the_end :
    State.Awaits ⟨passed, [⟨lower, .asking .min⟩, ⟨upper, .committed one⟩]⟩ one ∧
    passed.get? one = none ∧
    ¬State.Awaits ⟨passed.commit .min lower, [⟨lower, .committed .min⟩, ⟨upper, .committed one⟩]⟩ one ∧
    (passed.commit .min lower).get? one = some upper ∧
    ∃ rs, (passed.commit .min lower).query (.address upper.address) .all (fun _ => false) = .ok rs ∧
      upper ∈ rs := by
  have hwait : State.Awaits ⟨passed, [⟨lower, .asking .min⟩, ⟨upper, .committed one⟩]⟩ one :=
    ⟨_, List.mem_cons_self, .min, rfl, by decide, rfl⟩
  have hnone : ¬State.Awaits ⟨passed.commit .min lower, [⟨lower, .committed .min⟩, ⟨upper, .committed one⟩]⟩
      one := by
    rintro ⟨a, ha, j, -, -, hopen⟩
    rcases List.mem_cons.mp ha with rfl | ha
    · cases hopen
    · rw [List.mem_singleton.mp ha] at hopen
      cases hopen
  have hhidden := (committed_is_seen_unless_awaiting {} (r := upper) run_passed (by simp)).2 hwait
  obtain ⟨hget, hquery⟩ :=
    (committed_is_seen_unless_awaiting {} (r := upper) run_closed (by simp)).1 hnone _ .refl
  refine ⟨hwait, hhidden.1, hnone, hget, ?_⟩
  rcases hquery (.address upper.address) .all rfl rfl (by decide) fun _ => false with ⟨⟨n, hn⟩, -⟩ | hseen
  · cases hn
  · exact hseen

end Interleaving
end FlightTrace
