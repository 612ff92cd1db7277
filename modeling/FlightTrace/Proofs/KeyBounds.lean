import FlightTrace.Proofs.TimeIndex

/-! The keys of a range of time. Keys of one instant are told apart by their numbers, so an end of a range becomes
the least or the greatest key of its instant, whichever leaves the keys of this instant on the right side. The
bounds that are made of a range that is not empty are the right way round for an ordered set, and between them lie
the keys that a scan is to examine, one next to the other. -/
namespace FlightTrace

namespace Ordered

variable {α : Type} {p : α → Bool} {l : List α}

theorem dropWhile_eq_filter (h : l.Pairwise fun a b => p a = true → p b = true) :
    l.dropWhile (fun a => !p a) = l.filter p := by
  induction l with
  | nil => rfl
  | cons a l ih =>
    obtain ⟨hal, hl⟩ := List.pairwise_cons.mp h
    cases ha : p a with
    | false =>
      rw [List.dropWhile_cons, List.filter_cons, ha, ih hl]
      rfl
    | true =>
      have hall : l.filter p = l := List.filter_eq_self.mpr fun b hb => hal b hb ha
      rw [List.dropWhile_cons, List.filter_cons, ha, hall]
      rfl

theorem takeWhile_eq_filter (h : l.Pairwise fun a b => p b = true → p a = true) :
    l.takeWhile p = l.filter p := by
  induction l with
  | nil => rfl
  | cons a l ih =>
    obtain ⟨hal, hl⟩ := List.pairwise_cons.mp h
    cases ha : p a with
    | true =>
      rw [List.takeWhile_cons, List.filter_cons, ha, ih hl]
      rfl
    | false =>
      have hnone : l.filter p = [] := by
        refine List.filter_eq_nil_iff.mpr fun b hb hpb => ?_
        rw [hal b hb hpb] at ha
        cases ha
      rw [List.takeWhile_cons, List.filter_cons, ha, hnone]
      rfl

end Ordered

namespace Bound

variable {α : Type} [Ord α] [Std.TransOrd α] {bound : Bound α} {a b : α}

theorem admitsAbove_of_lt (h : compare a b = .lt) (ha : bound.admitsAbove a = true) : bound.admitsAbove b = true := by
  cases bound with
  | unbounded => rfl
  | included c => exact Std.TransCmp.isLE_trans ha (Ordering.isLE_of_eq_lt h)
  | excluded c => exact Ordering.isLT_iff_eq_lt.mpr (Std.TransCmp.lt_trans (Ordering.isLT_iff_eq_lt.mp ha) h)

theorem admitsBelow_of_lt (h : compare a b = .lt) (hb : bound.admitsBelow b = true) : bound.admitsBelow a = true := by
  cases bound with
  | unbounded => rfl
  | included c => exact Std.TransCmp.isLE_trans (Ordering.isLE_of_eq_lt h) hb
  | excluded c => exact Ordering.isLT_iff_eq_lt.mpr (Std.TransCmp.lt_trans h (Ordering.isLT_iff_eq_lt.mp hb))

end Bound

namespace OrderedSet

variable {α : Type} [Ord α] [Std.TransOrd α]

/-- The members from a lower end on, up to the first that lies beyond an upper end. -/
def between (s : OrderedSet α) (lower upper : Bound α) : List α :=
  (s.toList.dropWhile fun a => !lower.admitsAbove a).takeWhile upper.admitsBelow

theorem between_eq (s : OrderedSet α) (lower upper : Bound α) :
    s.between lower upper = s.toList.filter fun a => lower.admitsAbove a && upper.admitsBelow a := by
  have habove : s.toList.dropWhile (fun a => !lower.admitsAbove a) = s.toList.filter lower.admitsAbove :=
    Ordered.dropWhile_eq_filter (s.ascending.imp Bound.admitsAbove_of_lt)
  rw [between, habove, Ordered.takeWhile_eq_filter ((s.ascending.filter _).imp Bound.admitsBelow_of_lt), List.filter_filter]
  exact List.filter_congr fun a _ => Bool.and_comm _ _

end OrderedSet

namespace Index.KeyRange

variable {a b : Instant}

theorem isLE_first (i : RecordId) : (compare (⟨a, .min⟩ : Key) ⟨b, i⟩).isLE = (compare a b).isLE :=
  admitsAbove_lowerOf (.included a) ⟨b, i⟩

theorem isLE_last (i : RecordId) : (compare (⟨a, i⟩ : Key) ⟨b, .max⟩).isLE = (compare a b).isLE :=
  admitsBelow_upperOf (.included b) ⟨a, i⟩

theorem isLT_last (i : RecordId) : (compare (⟨a, .max⟩ : Key) ⟨b, i⟩).isLT = (compare a b).isLT :=
  admitsAbove_lowerOf (.excluded a) ⟨b, i⟩

theorem lowerOf_meets_upperOf {l u : Bound Instant} (h : (⟨l, u⟩ : TimeRange).isEmpty = false) :
    (lowerOf l).Meets (upperOf u) := by
  cases l with
  | unbounded => trivial
  | included a =>
    cases u with
    | unbounded => trivial
    | included b => exact (isLE_first .max).trans (Time.le_of_not_isEmpty (.inl rfl) (.inl rfl) h)
    | excluded b => exact (isLE_first .min).trans (Time.le_of_not_isEmpty (.inl rfl) (.inr rfl) h)
  | excluded a =>
    cases u with
    | unbounded => trivial
    | included b => exact (isLE_last .max).trans (Time.le_of_not_isEmpty (.inr rfl) (.inl rfl) h)
    | excluded b =>
      have hlt : compare a b = .lt := Ordering.isGE_eq_false.mp h
      refine Ordering.isLT_iff_eq_lt.mp ((isLT_last .min).trans ?_)
      rw [hlt]
      rfl

/-- A range has no keys just if it is empty by its ends, and then it contains no instant. Any other has bounds between
which an ordered set can be asked for its members; a key lies between them just if the range contains its instant,
whatever its number, so the members that the set gives are all that the range is to find. -/
theorem bounds_translate_range (r : TimeRange) :
    (ofTimeRange? r = none ↔ r.isEmpty = true) ∧
    (r.isEmpty = true → ∀ t, r.contains t = false) ∧
    (r.isEmpty = false → ∃ k, ofTimeRange? r = some k ∧ k.lower.Meets k.upper ∧
      (∀ t i, k.contains ⟨t, i⟩ = r.contains t) ∧
      ∀ s : OrderedSet Key, s.between k.lower k.upper = s.toList.filter fun key => r.contains key.time) := by
  refine ⟨ofTimeRange?_eq_none_iff, TimeRange.contains_eq_false, fun h => ?_⟩
  have hsome := ofTimeRange?_of_not_isEmpty h
  have hcontains := contains_of_ofTimeRange? hsome
  refine ⟨_, hsome, lowerOf_meets_upperOf h, fun t i => hcontains ⟨t, i⟩, fun s => ?_⟩
  rw [OrderedSet.between_eq]
  exact List.filter_congr fun key _ => hcontains key

/-- The first and the last key of an instant are left out by an open end and kept by a closed one. -/
example :
    let t : Instant := ⟨59, 1500000000, by decide, by decide⟩
    let u : Instant := ⟨60, 0, by decide, by decide⟩
    ofTimeRange? ⟨.excluded t, .included u⟩ = some ⟨.excluded ⟨t, .max⟩, .included ⟨u, .max⟩⟩ ∧
      ofTimeRange? (.between t t) = none := by
  decide

end Index.KeyRange
end FlightTrace
