import FlightTrace.Index.Time
import FlightTrace.Proofs.Ordered

/-! What the indexes hold and what scans of them find. Each operation on an index is told by the bucket that
it leaves under each key; a scan of buckets that nobody holds examines exactly the keys whose time lies in
the range, in their order. -/
namespace FlightTrace

theorem TimeRange.contains_eq_false {r : TimeRange} (h : r.isEmpty = true) (t : Instant) :
    r.contains t = false := by
  have hle {a b : Instant} (ha : (compare a t).isLE = true) (hb : (compare t b).isLE = true) :
      (compare a b).isGT = false := by
    rw [← Ordering.not_isLE_eq_isGT, Std.TransCmp.isLE_trans ha hb]
    rfl
  have hlt {a b : Instant} (ha : (compare a t).isLT = true) (hb : (compare t b).isLE = true) :
      (compare a b).isGE = false := by
    rw [Ordering.isLT_iff_eq_lt] at ha
    rw [Std.TransCmp.lt_of_lt_of_isLE ha hb]
    rfl
  have hlt' {a b : Instant} (ha : (compare a t).isLE = true) (hb : (compare t b).isLT = true) :
      (compare a b).isGE = false := by
    rw [Ordering.isLT_iff_eq_lt] at hb
    rw [Std.TransCmp.lt_of_isLE_of_lt ha hb]
    rfl
  have hweak {a b : Instant} (hab : (compare a b).isLT = true) : (compare a b).isLE = true := by
    rw [Ordering.isLT_iff_eq_lt] at hab
    rw [hab]
    rfl
  rw [Bool.eq_false_iff]
  intro hc
  obtain ⟨hl, hu⟩ := Bool.and_eq_true_iff.mp hc
  obtain ⟨l, u⟩ := r
  cases l with
  | unbounded => cases h
  | included a =>
    cases u with
    | unbounded => cases h
    | included b => exact absurd h (by simp [isEmpty, hle hl hu])
    | excluded b => exact absurd h (by simp [isEmpty, hlt' hl hu])
  | excluded a =>
    cases u with
    | unbounded => cases h
    | included b => exact absurd h (by simp [isEmpty, hlt hl hu])
    | excluded b => exact absurd h (by simp [isEmpty, hlt hl (hweak hu)])

namespace Index

theorem Key.compare_eq (a b : Key) :
    compare a b = (compare a.time b.time).then (compare a.id b.id) := rfl

namespace KeyRange

theorem admitsAbove_lowerOf (b : Bound Instant) (k : Key) :
    (lowerOf b).admitsAbove k = b.admitsAbove k.time := by
  cases b with
  | unbounded => rfl
  | included t =>
    have hmin : (compare RecordId.min k.id).isLE = true := Nat.isLE_compare.mpr (Nat.zero_le _)
    simp only [lowerOf, Bound.admitsAbove, Key.compare_eq]
    cases compare t k.time <;> simp [hmin]
  | excluded t =>
    have hmax : (compare RecordId.max k.id).isLT = false := by
      rw [Bool.eq_false_iff, ne_eq, Ordering.isLT_iff_eq_lt]
      intro h
      have hlt := Nat.compare_eq_lt.mp h
      have := k.id.lt_size
      simp only [RecordId.max] at hlt
      omega
    simp only [lowerOf, Bound.admitsAbove, Key.compare_eq]
    cases compare t k.time <;> simp [hmax]

theorem admitsBelow_upperOf (b : Bound Instant) (k : Key) :
    (upperOf b).admitsBelow k = b.admitsBelow k.time := by
  cases b with
  | unbounded => rfl
  | included t =>
    have hmax : (compare k.id RecordId.max).isLE = true := by
      refine Nat.isLE_compare.mpr ?_
      have := k.id.lt_size
      simp only [RecordId.max]
      omega
    simp only [upperOf, Bound.admitsBelow, Key.compare_eq]
    cases compare k.time t <;> simp [hmax]
  | excluded t =>
    have hmin : (compare k.id RecordId.min).isLT = false := by
      rw [Bool.eq_false_iff, ne_eq, Ordering.isLT_iff_eq_lt]
      intro h
      exact absurd (Nat.compare_eq_lt.mp h) (Nat.not_lt_zero _)
    simp only [upperOf, Bound.admitsBelow, Key.compare_eq]
    cases compare k.time t <;> simp [hmin]

theorem ofTimeRange?_eq_none_iff {range : TimeRange} : ofTimeRange? range = none ↔ range.isEmpty = true := by
  rw [ofTimeRange?]
  split <;> simp_all

theorem ofTimeRange?_of_not_isEmpty {range : TimeRange} (h : range.isEmpty = false) :
    ofTimeRange? range = some ⟨lowerOf range.lower, upperOf range.upper⟩ := by
  rw [ofTimeRange?, h, if_neg Bool.false_ne_true]

theorem contains_of_ofTimeRange? {range : TimeRange} {r : KeyRange} (h : ofTimeRange? range = some r)
    (k : Key) : r.contains k = range.contains k.time := by
  unfold ofTimeRange? at h
  split at h
  · cases h
  · cases h
    rw [contains, admitsAbove_lowerOf, admitsBelow_upperOf]
    rfl

end KeyRange

namespace Scan

variable (s : Scan) {p : Progress}

/-- Whether the scan is found cancelled while it examines more keys than `m`, up to `n`. -/
def Interrupted (m n : Nat) : Prop :=
  ∃ k, m < k ∧ k ≤ n ∧ k % max s.interval 1 = 0 ∧ s.cancelled k = true

theorem foldl_examine_stopped (keys : List Key) (h : p.stop.isSome = true) :
    keys.foldl s.examine p = p := by
  induction keys with
  | nil => rfl
  | cons k ks ih => rw [List.foldl_cons, examine, if_pos h, ih]

/-- A scan that is found cancelled ends with that. Any other has counted all keys and found those that it
may show, in their order. -/
theorem foldl_examine (keys : List Key) (h : p.stop = none) :
    (s.Interrupted p.scanned (p.scanned + keys.length) ∧
      (keys.foldl s.examine p).stop = some .cancelled) ∨
    (¬s.Interrupted p.scanned (p.scanned + keys.length) ∧
      keys.foldl s.examine p = ⟨p.scanned + keys.length,
        p.found ++ keys.filter (fun k => k.id.val < s.watermark), none⟩) := by
  induction keys generalizing p with
  | nil =>
    refine .inr ⟨?_, ?_⟩
    · rintro ⟨k, hlt, hle, -⟩
      simp only [List.length_nil, Nat.add_zero] at hle
      omega
    · simp [← h]
  | cons k ks ih =>
    rw [List.foldl_cons, List.length_cons]
    by_cases hc : (p.scanned + 1) % max s.interval 1 = 0 ∧ s.cancelled (p.scanned + 1) = true
    · refine .inl ⟨⟨p.scanned + 1, by omega, by omega, hc⟩, ?_⟩
      have hstep : (s.examine p k).stop = some .cancelled := by simp [examine, h, hc]
      rw [foldl_examine_stopped s ks (by rw [hstep]; rfl), hstep]
    · have hstep : s.examine p k = ⟨p.scanned + 1,
          p.found ++ [k].filter (fun k => k.id.val < s.watermark), none⟩ := by
        by_cases hk : k.id.val < s.watermark <;> simp [examine, h, hc, hk]
      have hmore : s.Interrupted p.scanned (p.scanned + (ks.length + 1)) ↔
          s.Interrupted (p.scanned + 1) (p.scanned + 1 + ks.length) := by
        constructor
        · rintro ⟨n, hlt, hle, hn⟩
          have hne : n ≠ p.scanned + 1 := by
            rintro rfl
            exact hc hn
          exact ⟨n, by omega, by omega, hn⟩
        · rintro ⟨n, hlt, hle, hn⟩
          exact ⟨n, by omega, by omega, hn⟩
      rw [hstep, hmore]
      rcases ih (p := ⟨p.scanned + 1, p.found ++ [k].filter (fun k => k.id.val < s.watermark), none⟩)
        rfl with ⟨hi, hs⟩ | ⟨hi, hs⟩
      · exact .inl ⟨hi, hs⟩
      · refine .inr ⟨hi, ?_⟩
        rw [hs, List.append_assoc, ← List.filter_append, Nat.add_assoc, Nat.add_comm 1]
        rfl

/-- Two scans that examine as many keys and ask for cancellation at the same of them end alike. -/
theorem outcome_eq {s s' : Scan} {α : Type} {x y : Except Error α} {a : α} {n : Nat}
    (h : (s.Interrupted 0 n ∧ x = .error .cancelled) ∨ (¬s.Interrupted 0 n ∧ x = .ok a))
    (h' : (s'.Interrupted 0 n ∧ y = .error .cancelled) ∨ (¬s'.Interrupted 0 n ∧ y = .ok a))
    (hinterval : s'.interval = s.interval) (hcancelled : s'.cancelled = s.cancelled) : x = y := by
  have hinterrupted : s'.Interrupted 0 n ↔ s.Interrupted 0 n := by
    simp only [Interrupted, hinterval, hcancelled]
  rw [hinterrupted] at h'
  rcases h with ⟨hi, hx⟩ | ⟨hi, hx⟩ <;> rcases h' with ⟨hi', hy⟩ | ⟨hi', hy⟩
  · rw [hx, hy]
  · exact absurd hi hi'
  · exact absurd hi' hi
  · rw [hx, hy]

theorem not_interrupted (h : ∀ n, s.cancelled n = false) (m n : Nat) : ¬s.Interrupted m n := by
  rintro ⟨k, -, -, -, hk⟩
  rw [h] at hk
  cases hk

theorem foldl_examine_free {s : Scan} (hnever : ∀ n, s.cancelled n = false) (hp : p.stop = none) (keys : List Key) :
    keys.foldl s.examine p = ⟨p.scanned + keys.length,
      p.found ++ keys.filter (fun k => k.id.val < s.watermark), none⟩ := by
  rcases s.foldl_examine keys hp with ⟨hi, -⟩ | ⟨-, hall⟩
  · exact absurd hi (s.not_interrupted hnever _ _)
  · exact hall

end Scan
end Index
end FlightTrace
