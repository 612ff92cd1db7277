import FlightTrace.Proofs.Queries

/-! Queries of one moment. The moment of an instant ends a millisecond later by the clock, or where time ends. It
holds the instant and nothing from its end on, so a query of the moment of a trace finds the trace. -/
namespace FlightTrace

namespace Instant

variable {t u v : Instant}

theorem lt_iff : t < u ↔ t.second < u.second ∨ t.second = u.second ∧ t.nano < u.nano := by
  rw [lt_iff_compare]
  change (compare t.second u.second).then (compare t.nano u.nano) = .lt ↔ _
  rw [Ordering.then_eq_lt, Int.compare_eq_lt, Int.compare_eq_eq, Nat.compare_eq_lt]

theorem le_iff : t ≤ u ↔ t.second < u.second ∨ t.second = u.second ∧ t.nano ≤ u.nano := by
  rw [le_iff_compare]
  change ((compare t.second u.second).then (compare t.nano u.nano)).isLE ↔ _
  rw [Ordering.isLE_then_iff_or, Int.compare_eq_lt, Int.compare_eq_eq, Nat.isLE_compare]

theorem eq_of_parts (hs : t.second = u.second) (hn : t.nano = u.nano) : t = u := by
  cases t
  cases u
  simp_all

/-- An instant whose clock shows a millisecond more than that of another. A leap second is counted while the clock
stands in it, and not from outside. -/
inductive MilliLater (t u : Instant) : Prop where
  | plain (ht : t.nano < 1000000000) (hu : u.nano < 1000000000)
    (h : u.second * 1000000000 + u.nano = t.second * 1000000000 + t.nano + 1000000)
  | inLeap (ht : 1000000000 ≤ t.nano) (hs : u.second = t.second) (h : u.nano = t.nano + 1000000)
  | pastLeap (ht : 1000000000 ≤ t.nano) (hs : u.second = t.second + 1) (h : u.nano + 2000000000 = t.nano + 1000000)

theorem ofParts?_eq_some_iff {s : Int} {n : Nat} : ofParts? s n = some u ↔ u.second = s ∧ u.nano = n := by
  constructor
  · intro h
    rw [ofParts?] at h
    split at h
    · cases h
      exact ⟨rfl, rfl⟩
    · cases h
  · rintro ⟨rfl, rfl⟩
    exact ofParts?_second_nano u

theorem plusMilli?_of_plain (ht : t.nano < 1000000000) : t.plusMilli? =
    if t.nano + 1000000 < 1000000000 then ofParts? t.second (t.nano + 1000000)
    else ofParts? (t.second + 1) (t.nano + 1000000 - 1000000000) := by
  have hout : ¬1000000000 ≤ t.nano := Nat.not_le_of_lt ht
  simp only [plusMilli?, hout, false_and, if_false]

theorem plusMilli?_of_leap (ht : 1000000000 ≤ t.nano) : t.plusMilli? =
    if t.nano + 1000000 < 2000000000 then ofParts? t.second (t.nano + 1000000)
    else ofParts? (t.second + 1) (t.nano + 1000000 - 2000000000) := by
  by_cases hstay : t.nano + 1000000 < 2000000000
  · simp only [plusMilli?, ht, hstay, and_self, if_true]
  · -- the sum has left the leap second and starts from the second before
    have hleft : ¬t.nano + 1000000 - 1000000000 < 1000000000 := by omega
    have hsub : t.nano + 1000000 - 1000000000 - 1000000000 = t.nano + 1000000 - 2000000000 := by omega
    simp only [plusMilli?, ht, hstay, and_false, if_false, if_true, hleft, hsub]

theorem plusMilli?_eq_some_iff : t.plusMilli? = some u ↔ t.MilliLater u := by
  have hend := t.nano_lt
  have hend' := u.nano_lt
  by_cases ht : t.nano < 1000000000
  · have hplain : t.plusMilli? = some u ↔ u.nano < 1000000000 ∧
        u.second * 1000000000 + u.nano = t.second * 1000000000 + t.nano + 1000000 := by
      rw [plusMilli?_of_plain ht]
      split <;> (rw [ofParts?_eq_some_iff]; omega)
    rw [hplain]
    refine ⟨fun h => .plain ht h.1 h.2, fun h => ?_⟩
    cases h <;> omega
  · have hleap : t.plusMilli? = some u ↔
        if t.nano + 1000000 < 2000000000 then u.second = t.second ∧ u.nano = t.nano + 1000000
        else u.second = t.second + 1 ∧ u.nano = t.nano + 1000000 - 2000000000 := by
      rw [plusMilli?_of_leap (Nat.le_of_not_lt ht)]
      split <;> rw [ofParts?_eq_some_iff]
    rw [hleap]
    split
    · refine ⟨fun h => .inLeap (by omega) h.1 h.2, fun h => ?_⟩
      cases h <;> omega
    · refine ⟨fun h => .pastLeap (by omega) h.1 (by omega), fun h => ?_⟩
      cases h <;> omega

theorem MilliLater.lt (h : t.MilliLater u) : t < u := by
  have ht := t.nano_lt
  rw [lt_iff]
  cases h <;> omega

theorem MilliLater.unique (h : t.MilliLater u) (h' : t.MilliLater v) : u = v :=
  Option.some.inj ((plusMilli?_eq_some_iff.mpr h).symm.trans (plusMilli?_eq_some_iff.mpr h'))

/-- An instant of the last millisecond of a second that is the last, or of the leap second behind it. -/
def AtEnd (t : Instant) : Prop :=
  t.second = last ∧ (999000000 ≤ t.nano ∧ t.nano < 1000000000 ∨ 1999000000 ≤ t.nano)

theorem exists_milliLater_iff : (∃ u, t.MilliLater u) ↔ ¬t.AtEnd := by
  have hend := t.nano_lt
  have hrange := t.in_range
  constructor
  · rintro ⟨u, hu⟩ ⟨hs, hn⟩
    have hend' := u.nano_lt
    have hrange' := u.in_range
    rw [last] at hs
    cases hu <;> omega
  · intro hn
    simp only [AtEnd, last] at hn
    by_cases ht : t.nano < 1000000000
    · by_cases hstay : t.nano + 1000000 < 1000000000
      · exact ⟨⟨t.second, t.nano + 1000000, hrange, by omega⟩, .plain ht hstay (by simp only; omega)⟩
      · exact ⟨⟨t.second + 1, t.nano + 1000000 - 1000000000, by omega, by omega⟩,
          .plain ht (by simp only; omega) (by simp only; omega)⟩
    · by_cases hstay : t.nano + 1000000 < 2000000000
      · exact ⟨⟨t.second, t.nano + 1000000, hrange, by omega⟩, .inLeap (by omega) rfl rfl⟩
      · exact ⟨⟨t.second + 1, t.nano + 1000000 - 2000000000, by omega, by omega⟩,
          .pastLeap (by omega) rfl (by simp only; omega)⟩

end Instant

namespace TimeRange

variable {t u : Instant}

/-- The ways in which the moment of an instant can end. -/
theorem moment_cases (t : Instant) :
    (∃ v, t.MilliLater v ∧ moment t = between t v) ∨ (∀ v, ¬t.MilliLater v) ∧ moment t = inclusive t t := by
  rw [moment]
  cases h : t.plusMilli? with
  | none =>
    refine .inr ⟨fun v hv => ?_, rfl⟩
    rw [Instant.plusMilli?_eq_some_iff.mpr hv] at h
    cases h
  | some v => exact .inl ⟨v, Instant.plusMilli?_eq_some_iff.mp h, rfl⟩

theorem isEmpty_moment (t : Instant) : (moment t).isEmpty = false := by
  rcases moment_cases t with ⟨v, hv, h⟩ | ⟨-, h⟩
  · have hlt : compare t v = .lt := hv.lt
    rw [h]
    change (compare t v).isGE = false
    rw [hlt]
    rfl
  · rw [h]
    have hself : compare t t = .eq := Std.ReflCmp.compare_self
    change (compare t t).isGT = false
    rw [hself]
    rfl

theorem contains_moment_iff : (moment t).contains u = true ↔ t ≤ u ∧ (u = t ∨ ∃ v, t.MilliLater v ∧ u < v) := by
  rcases moment_cases t with ⟨v, hv, h⟩ | ⟨hnone, h⟩
  · have hcontains : (between t v).contains u = true ↔ t ≤ u ∧ u < v := by
      rw [contains, Bool.and_eq_true]
      exact and_congr_right' Ordering.isLT_iff_eq_lt
    rw [h, hcontains]
    refine and_congr_right fun hle => ⟨fun hlt => .inr ⟨v, hv, hlt⟩, ?_⟩
    rintro (rfl | ⟨w, hw, hlt⟩)
    · exact hv.lt
    · exact hw.unique hv ▸ hlt
  · have hcontains : (inclusive t t).contains u = true ↔ t ≤ u ∧ u ≤ t := by
      rw [contains, Bool.and_eq_true]
      rfl
    rw [h, hcontains]
    refine and_congr_right fun hle => ⟨fun hge => .inl ?_, ?_⟩
    · rw [Instant.le_iff] at hle hge
      exact Instant.eq_of_parts (by omega) (by omega)
    · rintro (rfl | ⟨w, hw, -⟩)
      · exact hle
      · exact absurd hw (hnone w)

/-- From outside a leap second is not counted: the moment that ends behind one holds it. -/
example : (moment ⟨1483228799, 999500000, by decide, by decide⟩).contains
    ⟨1483228799, 1700000000, by decide, by decide⟩ = true := by decide

/-- Nothing that is in a moment comes as late as its end. -/
theorem not_contains_moment {v : Instant} (hv : t.MilliLater v) (hle : v ≤ u) : (moment t).contains u = false := by
  rw [Bool.eq_false_iff]
  intro hc
  rw [Instant.le_iff] at hle
  rcases (contains_moment_iff.mp hc).2 with rfl | ⟨w, hw, hlt⟩
  · have hlt := Instant.lt_iff.mp hv.lt
    omega
  · rw [hw.unique hv, Instant.lt_iff] at hlt
    omega

end TimeRange

namespace Interleaving

variable {σ : State} {i : RecordId} {r : Trace}

theorem State.Sound.exists_query_of_ended (h : σ.Sound) (hended : ∀ a ∈ σ.appends, a.stage.Ended) (path : AccessPath)
    (range : TimeRange) : ∃ rs, σ.tables.query path range (fun _ => false) = .ok rs ∧ ∀ r, r ∈ rs ↔
      (∃ i, (i, r) ∈ σ.committed) ∧ path.matchesTrace r = true ∧ range.contains r.time = true := by
  have hfree : ∀ s ∈ σ.tables.scanned range path, (σ.tables.bucketAt s).held = false := fun s _ => h.free hended s
  rcases h.query_cases hfree (fun _ => false) rfl with ⟨hi, -⟩ | ⟨-, hq⟩
  · exact absurd hi (Index.Scan.not_interrupted _ (fun _ => rfl) _ _)
  · refine ⟨_, hq, fun r => ?_⟩
    have hkept {i : RecordId} {r : Trace} (hc : (i, r) ∈ σ.committed) : σ.tables.traces.get? i = some r :=
      (h.stored_of_committed (mem_committed.mp hc)).1
    simp only [TraceTables.resolve, List.mem_filterMap, mem_snapshot]
    constructor
    · rintro ⟨k, ⟨r', hc, -, hm, hr, ht⟩, hget⟩
      obtain rfl : r' = r := Option.some.inj ((hkept hc).symm.trans hget)
      exact ⟨⟨k.id, hc⟩, hm, ht ▸ hr⟩
    · rintro ⟨⟨i, hc⟩, hm, hr⟩
      exact ⟨⟨r.time, i⟩, ⟨r, hc, h.lt_visible hended hc, hm, hr, rfl⟩, hkept hc⟩

/-- The moment of any instant is not empty. It holds the instant, and nothing from the instant on at which the clock
shows a millisecond more; at the end of time, where there is no such instant, it holds nothing else. So while no append
is under way, a query of the moment of a trace that was appended finds the trace, and no trace outside the moment. -/
theorem moment_finds_its_trace (settings : Settings) (h : Run (.start settings) σ)
    (hended : ∀ a ∈ σ.appends, a.stage.Ended) :
    (∀ t, (TimeRange.moment t).isEmpty = false ∧ (TimeRange.moment t).contains t = true ∧
      (∀ v u, t.MilliLater v → v ≤ u → (TimeRange.moment t).contains u = false) ∧
      ((∃ v, t.MilliLater v) ↔ ¬t.AtEnd) ∧ (t.AtEnd → ∀ u, (TimeRange.moment t).contains u = true → u = t)) ∧
    ∀ i r, (i, r) ∈ σ.committed → ∃ rs, σ.tables.query .time (.moment r.time) (fun _ => false) = .ok rs ∧ r ∈ rs ∧
      ∀ r' ∈ rs, (∃ j, (j, r') ∈ σ.committed) ∧ r.time ≤ r'.time ∧
        (r'.time = r.time ∨ ∃ v, r.time.MilliLater v ∧ r'.time < v) := by
  have hself (t : Instant) : (TimeRange.moment t).contains t = true := by
    refine TimeRange.contains_moment_iff.mpr ⟨?_, .inl rfl⟩
    exact Instant.le_iff.mpr (.inr ⟨rfl, Nat.le_refl _⟩)
  refine ⟨fun t => ⟨TimeRange.isEmpty_moment t, hself t, fun v u => TimeRange.not_contains_moment,
    Instant.exists_milliLater_iff, fun hend u hu => ?_⟩, fun i r hc => ?_⟩
  · rcases (TimeRange.contains_moment_iff.mp hu).2 with heq | hlater
    · exact heq
    · obtain ⟨v, hv, -⟩ := hlater
      exact absurd hend (Instant.exists_milliLater_iff.mp ⟨v, hv⟩)
  · obtain ⟨rs, hq, hrs⟩ := (h.sound (State.start_sound settings)).exists_query_of_ended hended .time (.moment r.time)
    refine ⟨rs, hq, (hrs r).mpr ⟨⟨i, hc⟩, rfl, hself r.time⟩, fun r' hr' => ?_⟩
    obtain ⟨hc', -, hin⟩ := (hrs r').mp hr'
    exact ⟨hc', TimeRange.contains_moment_iff.mp hin⟩

/-- A trace of a leap second is appended, and its moment is asked for. -/
theorem moment_finds_trace_of_leap_second : ∃ (σ : State) (r : Trace), Run (.start {}) σ ∧
    (∀ a ∈ σ.appends, a.stage.Ended) ∧ (RecordId.min, r) ∈ σ.committed ∧ 1000000000 ≤ r.time.nano ∧
    ∃ rs, σ.tables.query .time (.moment r.time) (fun _ => false) = .ok rs ∧ r ∈ rs := by
  let r : Trace := { time := ⟨1483228799, 1999500000, by decide, by decide⟩, address := ⟨1, by decide⟩ }
  let hook : Hook Empty (Unit × TraceTables) := Hook.beside Hook.agree
  let t := ((TraceTables.ofSettings {}).appendWith hook r ()).2.2
  obtain ⟨_, hrun⟩ := run_appendWith [] (State.start_sound {}).listed
    (show (TraceTables.ofSettings {}).appendWith hook r () = (.ok .min, (), t) from rfl)
  have hended : ∀ a ∈ ([⟨r, .committed .min⟩] : List Append), a.stage.Ended := by
    intro a ha
    rw [List.mem_singleton.mp ha]
    exact .inl ⟨_, rfl⟩
  have hc : (RecordId.min, r) ∈ State.committed ⟨t, [⟨r, .committed .min⟩]⟩ := List.mem_singleton_self _
  obtain ⟨-, hfinds⟩ := moment_finds_its_trace {} hrun hended
  obtain ⟨rs, hq, hr, -⟩ := hfinds .min r hc
  exact ⟨_, r, hrun, hended, hc, by decide, rs, hq, hr⟩

end Interleaving
end FlightTrace
