import FlightTrace.Proofs.IndexScan

/-! The buckets of an index under its operations. An operation is told by the bucket that it leaves under
each key and by the keys that have a bucket. Pruning changes no bucket, for one that is not there counts as
empty and not held. -/
namespace FlightTrace
namespace Index

/-- Whether a bucket is held or has keys. -/
def Bucket.used (b : Bucket) : Bool := b.held || !b.keys.isEmpty

theorem Bucket.not_used_iff {b : Bucket} : b.used = false ↔ b.held = false ∧ b.keys = ∅ := by
  rw [used, Bool.or_eq_false_iff, Bool.not_eq_false', OrderedSet.isEmpty_iff]

namespace Keyed

variable {κ : Type} [Ord κ] {x x' : Keyed κ} {k j : κ} {timeout : Nat}

def has (x : Keyed κ) (k : κ) : Bool := x.buckets.contains k

theorem has_eq_false_iff : x.has k = false ↔ x.buckets.get? k = none := by
  rw [has, OrderedMap.contains, Option.isSome_eq_false_iff, Option.isNone_iff_eq_none]

theorem bucket_of_not_has (h : x.has k = false) : x.bucket k = {} := by
  rw [bucket, has_eq_false_iff.mp h]
  rfl

theorem get?_of_has (h : x.has k = true) : x.buckets.get? k = some (x.bucket k) := by
  obtain ⟨b, hb⟩ := Option.isSome_iff_exists.mp h
  rw [bucket, hb]
  rfl

theorem isIdle_iff :
    x.isIdle k = true ↔ x.has k = true ∧ (x.bucket k).held = false ∧ (x.bucket k).keys = ∅ := by
  rw [isIdle]
  cases hk : x.has k with
  | false => simp [has_eq_false_iff.mp hk]
  | true => simp [get?_of_has hk, OrderedSet.isEmpty_iff]

theorem not_isIdle_of_held (h : (x.bucket k).held = true) : ¬x.isIdle k = true := fun hi => by
  rw [(isIdle_iff.mp hi).2.1] at h
  cases h

theorem not_isIdle_of_not_has (h : x.has k = false) : ¬x.isIdle k = true := fun hi => by
  rw [(isIdle_iff.mp hi).1] at h
  cases h

/-- A scan looks at nothing but a bucket. One that is missing counts as empty. -/
theorem scan_eq_bucket (s : Scan) (range : TimeRange) (p : Scan.Progress) : x.scan s k range p =
    match p.stop, KeyRange.ofTimeRange? range with
    | none, some r =>
      if (x.bucket k).held then { p with stop := some (.timeout x.name s.lockTimeout) }
      else ((x.bucket k).keys.toList.filter r.contains).foldl s.examine p
    | _, _ => p := by
  rw [scan]
  cases p.stop with
  | some e => rfl
  | none =>
    cases KeyRange.ofTimeRange? range with
    | none => rfl
    | some r =>
      cases hk : x.has k with
      | false =>
        rw [bucket_of_not_has hk, has_eq_false_iff.mp hk]
        rfl
      | true => rw [get?_of_has hk]

theorem has_of_used (h : (x.bucket k).used = true) : x.has k = true := by
  by_contra hk
  rw [bucket_of_not_has (Bool.eq_false_iff.mpr hk)] at h
  cases h

theorem scan_of_not_used (h : (x.bucket k).used = false) (s : Scan) (range : TimeRange) (p : Scan.Progress) :
    x.scan s k range p = p := by
  obtain ⟨hheld, hkeys⟩ := Bucket.not_used_iff.mp h
  rw [scan_eq_bucket, hheld, hkeys]
  cases p.stop with
  | some e => rfl
  | none => cases KeyRange.ofTimeRange? range <;> rfl

/-- A scan of a bucket that nobody holds examines its keys in the range. -/
theorem scan_eq {range : TimeRange} (h : range.isEmpty = false → (x.bucket k).held = false) (s : Scan)
    (p : Scan.Progress) : x.scan s k range p =
      ((x.bucket k).keys.toList.filter fun key => range.contains key.time).foldl s.examine p := by
  rw [scan_eq_bucket]
  cases hstop : p.stop with
  | some e => rw [Scan.foldl_examine_stopped s _ (by rw [hstop]; rfl)]
  | none =>
    cases hr : KeyRange.ofTimeRange? range with
    | none =>
      simp [TimeRange.contains_eq_false (KeyRange.ofTimeRange?_eq_none_iff.mp hr)]
    | some r =>
      have hheld : (x.bucket k).held = false := by
        refine h (Bool.eq_false_iff.mpr fun hempty => ?_)
        rw [KeyRange.ofTimeRange?_eq_none_iff.mpr hempty] at hr
        cases hr
      have hcontains : r.contains = fun key => range.contains key.time :=
        funext (KeyRange.contains_of_ofTimeRange? hr)
      simp only [hheld, Bool.false_eq_true, if_false, hcontains]

variable [Std.LawfulEqOrd κ] [DecidableEq κ]

theorem bucket_prune : (x.prune k).bucket j = x.bucket j := by
  rw [prune]
  by_cases hi : x.isIdle k = true
  · rw [if_pos hi, bucket, OrderedMap.get?_erase]
    by_cases hj : j = k
    · obtain ⟨-, hheld, hkeys⟩ := isIdle_iff.mp hi
      rw [if_pos hj, hj, Option.getD_none]
      cases hb : x.bucket k
      simp_all
    · rw [if_neg hj, bucket]
  · rw [if_neg hi]

theorem has_prune : (x.prune k).has j = true ↔ x.has j = true ∧ ¬(k = j ∧ x.isIdle j = true) := by
  rw [prune]
  by_cases hi : x.isIdle k = true
  · rw [if_pos hi, has, OrderedMap.contains_erase]
    by_cases hj : k = j
    · simp [← hj, hi]
    · simp [hj, Ne.symm hj, has]
  · rw [if_neg hi]
    by_cases hj : k = j
    · simp [← hj, hi]
    · simp [hj]

variable [Std.TransOrd κ]

omit [Std.LawfulEqOrd κ] [DecidableEq κ] in
theorem lock_eq_ok_iff : x.lock k timeout = .ok x' ↔ (x.bucket k).held = false ∧
    x' = { x with buckets := x.buckets.insert k { x.bucket k with held := true } } := by
  rw [lock]
  cases hk : (x.bucket k).held with
  | false => simp [eq_comm]
  | true => simp

theorem bucket_of_lock (h : x.lock k timeout = .ok x') :
    x'.bucket j = if k = j then { x.bucket j with held := true } else x.bucket j := by
  obtain ⟨-, rfl⟩ := lock_eq_ok_iff.mp h
  by_cases hj : k = j <;> simp [bucket, OrderedMap.get?_insert, hj, Ne.symm]

theorem has_of_lock (h : x.lock k timeout = .ok x') : x'.has j = true ↔ k = j ∨ x.has j = true := by
  obtain ⟨-, rfl⟩ := lock_eq_ok_iff.mp h
  by_cases hj : k = j <;> simp [has, OrderedMap.contains_insert, hj, Ne.symm]

theorem bucket_put (key : Key) : (x.put k key).bucket j =
    if k = j then { x.bucket j with keys := (x.bucket j).keys.insert key } else x.bucket j := by
  by_cases hj : k = j <;> simp [put, bucket, OrderedMap.get?_insert, hj, Ne.symm]

theorem has_put (key : Key) : (x.put k key).has j = true ↔ k = j ∨ x.has j = true := by
  by_cases hj : k = j <;> simp [put, has, OrderedMap.contains_insert, hj, Ne.symm]

theorem bucket_release :
    (x.release k).bucket j = if k = j then { x.bucket j with held := false } else x.bucket j := by
  rw [release]
  cases hk : x.buckets.get? k with
  | none =>
    by_cases hj : k = j
    · simp [bucket, ← hj, hk]
    · rw [if_neg hj]
  | some b =>
    by_cases hj : k = j
    · simp [bucket, OrderedMap.get?_insert, ← hj, hk]
    · simp [bucket, OrderedMap.get?_insert, hj, Ne.symm hj]

theorem has_release : (x.release k).has j = x.has j := by
  rw [release]
  cases hk : x.buckets.get? k with
  | none => rfl
  | some b =>
    rw [has, OrderedMap.contains_insert]
    by_cases hj : j = k
    · simp [hj, has, OrderedMap.contains, hk]
    · simp [hj, has]

omit [Std.LawfulEqOrd κ] [DecidableEq κ] in
theorem name_release (x : Keyed κ) (k : κ) : (x.release k).name = x.name := by
  rw [release]
  split <;> rfl

omit [Std.LawfulEqOrd κ] [DecidableEq κ] [Std.TransOrd κ] in
theorem name_prune (x : Keyed κ) (k : κ) : (x.prune k).name = x.name := by
  rw [prune]
  split <;> rfl

theorem release_of_free (hfree : (x.bucket k).held = false) : x.release k = x := by
  rw [release]
  cases hk : x.buckets.get? k with
  | none => rfl
  | some b =>
    rw [bucket, hk] at hfree
    refine congrArg (mk x.name) (OrderedMap.ext_get? fun j => ?_)
    rw [OrderedMap.get?_insert]
    split
    · rename_i hj
      rw [hj, hk, ← hfree]
      rfl
    · rfl

theorem get?_release_of_lock (h : x.lock k timeout = .ok x') :
    (x'.release k).buckets.get? j = if j = k then some (x.bucket k) else x.buckets.get? j := by
  obtain ⟨hheld, rfl⟩ := lock_eq_ok_iff.mp h
  by_cases hj : j = k <;> simp [release, OrderedMap.get?_insert, hj, ← hheld]

theorem release_of_lock_of_has (h : x.lock k timeout = .ok x') (hk : x.has k = true) :
    x'.release k = x := by
  have hbuckets : (x'.release k).buckets = x.buckets := by
    refine OrderedMap.ext_get? fun j => ?_
    rw [get?_release_of_lock h]
    by_cases hj : j = k
    · rw [if_pos hj, hj, get?_of_has hk]
    · rw [if_neg hj]
  obtain ⟨-, rfl⟩ := lock_eq_ok_iff.mp h
  simp only [release, OrderedMap.get?_insert, if_true] at hbuckets ⊢
  rw [hbuckets]

/-- To take hold of a bucket, let go of it and prune it is to prune it. -/
theorem prune_release_of_lock (h : x.lock k timeout = .ok x') : (x'.release k).prune k = x.prune k := by
  cases hk : x.has k with
  | true => rw [release_of_lock_of_has h hk]
  | false =>
    have hget {j : κ} : (x'.release k).buckets.get? j = if j = k then some {} else x.buckets.get? j := by
      rw [get?_release_of_lock h, bucket_of_not_has hk]
    have hidle : (x'.release k).isIdle k = true := by
      rw [isIdle, hget, if_pos rfl]
      rfl
    have hbuckets : (x'.release k).buckets.erase k = x.buckets := by
      refine OrderedMap.ext_get? fun j => ?_
      rw [OrderedMap.get?_erase, hget]
      by_cases hj : j = k
      · rw [if_pos hj, hj, has_eq_false_iff.mp hk]
      · rw [if_neg hj, if_neg hj]
    rw [prune, if_pos hidle, prune, if_neg (not_isIdle_of_not_has hk), hbuckets]
    obtain ⟨-, rfl⟩ := lock_eq_ok_iff.mp h
    simp [release, OrderedMap.get?_insert]

end Keyed

namespace Time

variable {x x' : Time} {t u : Instant} {n : Int} {timeout : Nat}

theorem lock_eq_ok_iff : x.lock t timeout = .ok x' ↔ ∃ segments,
    x.segments.lock (x.segmentOf t) timeout = .ok segments ∧
    x' = { x with segments, directory := x.directory.insert (x.segmentOf t) } := by
  rw [lock]
  cases h : x.segments.lock (x.segmentOf t) timeout with
  | ok segments => simp [eq_comm, pure, Except.pure, bind, Except.bind]
  | error e => simp [bind, Except.bind]

theorem listed_lock (hl : ∀ n, n ∈ x.directory ↔ x.segments.has n = true) (h : x.lock t timeout = .ok x') :
    ∀ n, n ∈ x'.directory ↔ x'.segments.has n = true := by
  obtain ⟨segments, hseg, rfl⟩ := lock_eq_ok_iff.mp h
  intro n
  rw [OrderedSet.mem_insert, hl, Keyed.has_of_lock hseg, eq_comm]

theorem listed_prune (hl : ∀ n, n ∈ x.directory ↔ x.segments.has n = true) (t : Instant) :
    ∀ n, n ∈ (x.prune t).directory ↔ (x.prune t).segments.has n = true := by
  intro n
  rw [prune]
  by_cases hi : x.segments.isIdle (x.segmentOf t) = true
  · rw [if_pos hi, OrderedSet.mem_erase, hl, Keyed.has_prune, and_comm]
    refine and_congr_right fun _ => not_congr ⟨?_, fun hn => hn.1.symm⟩
    rintro rfl
    exact ⟨rfl, hi⟩
  · rw [if_neg hi]
    exact hl n

/-- To take hold of a segment, let go of it and prune it is to prune it. -/
theorem prune_release_of_lock (h : x.lock t timeout = .ok x')
    (hl : x.segmentOf t ∈ x.directory ↔ x.segments.has (x.segmentOf t) = true) :
    (x'.release t).prune t = x.prune t := by
  obtain ⟨segments, hlock, rfl⟩ := lock_eq_ok_iff.mp h
  have hrelease : release { x with segments, directory := x.directory.insert (x.segmentOf t) } t =
    { x with
      segments := segments.release (x.segmentOf t)
      directory := x.directory.insert (x.segmentOf t) } := rfl
  have hprune (s : Keyed Int) (d : OrderedSet Int) : prune { x with segments := s, directory := d } t =
    if s.isIdle (x.segmentOf t) then
      { x with segments := s.prune (x.segmentOf t), directory := d.erase (x.segmentOf t) }
    else { x with segments := s, directory := d } := rfl
  rw [hrelease]
  cases hhas : x.segments.has (x.segmentOf t) with
  | true =>
    have hdir : x.directory.insert (x.segmentOf t) = x.directory := by
      refine OrderedSet.ext fun m => ?_
      rw [OrderedSet.mem_insert]
      exact or_iff_right_of_imp fun hm => hm ▸ hl.mpr hhas
    rw [Keyed.release_of_lock_of_has hlock hhas, hdir]
  | false =>
    have hdir : (x.directory.insert (x.segmentOf t)).erase (x.segmentOf t) = x.directory := by
      refine OrderedSet.ext fun m => ?_
      rw [OrderedSet.mem_erase, OrderedSet.mem_insert]
      constructor
      · rintro ⟨hne, hm⟩
        exact hm.resolve_left hne
      · intro hm
        refine ⟨?_, .inr hm⟩
        rintro rfl
        exact absurd (hl.mp hm) (by simp [hhas])
    have hidle : (segments.release (x.segmentOf t)).isIdle (x.segmentOf t) = true := by
      refine Keyed.isIdle_iff.mpr ⟨?_, ?_, ?_⟩
      · rw [Keyed.has_release, Keyed.has_of_lock hlock]
        exact .inl rfl
      · rw [Keyed.bucket_release, if_pos rfl]
      · rw [Keyed.bucket_release, if_pos rfl, Keyed.bucket_of_lock hlock, if_pos rfl,
          Keyed.bucket_of_not_has hhas]
    have hnot := Keyed.not_isIdle_of_not_has hhas
    have hsegments := Keyed.prune_release_of_lock hlock
    rw [hprune, if_pos hidle, hdir, hsegments, Keyed.prune, prune, if_neg hnot, if_neg hnot]

def keys (x : Time) : List Key := x.directory.toList.flatMap fun n => (x.segments.bucket n).keys.toList

/-- The directory names the segments that exist, and every key is in the segment of its time. -/
structure Sound (x : Time) : Prop where
  listed : ∀ n, n ∈ x.directory ↔ x.segments.has n = true
  placed : ∀ n, ∀ k ∈ (x.segments.bucket n).keys, x.segmentOf k.time = n

theorem second_le_of_isLE (h : (compare t u).isLE = true) : t.second ≤ u.second :=
  Int.isLE_compare.mp (Ordering.isLE_left_of_isLE_then h)

theorem segmentOf_le (h : (compare t u).isLE = true) : x.segmentOf t ≤ x.segmentOf u :=
  Int.ediv_le_ediv x.width_pos (second_le_of_isLE h)

theorem compare_lt_of_segmentOf_lt (h : x.segmentOf t < x.segmentOf u) : compare t u = .lt := by
  cases hc : compare t u with
  | lt => rfl
  | eq => exact absurd (segmentOf_le (x := x) (by rw [Std.OrientedCmp.eq_comm.mp hc]; rfl)) (by omega)
  | gt => exact absurd (segmentOf_le (x := x) (by rw [Std.OrientedCmp.lt_of_gt hc]; rfl)) (by omega)

theorem mem_keys_iff (h : x.Sound) {k : Key} :
    k ∈ x.keys ↔ k ∈ (x.segments.bucket (x.segmentOf k.time)).keys := by
  rw [keys, List.mem_flatMap]
  constructor
  · rintro ⟨n, -, hk⟩
    rwa [h.placed n k hk]
  · intro hk
    refine ⟨_, (h.listed _).mpr ?_, hk⟩
    by_contra hhas
    rw [Keyed.bucket_of_not_has (Bool.eq_false_iff.mpr hhas)] at hk
    exact absurd hk OrderedSet.not_mem_empty

theorem keys_ascending (h : x.Sound) : x.keys.Pairwise fun a b => compare a b = .lt := by
  refine List.pairwise_flatMap.mpr ⟨fun n _ => (x.segments.bucket n).keys.ascending, ?_⟩
  refine x.directory.ascending.imp fun {m n} hmn a ha b hb => ?_
  have hlt : x.segmentOf a.time < x.segmentOf b.time := by
    rw [h.placed m a ha, h.placed n b hb]
    exact Int.compare_eq_lt.mp hmn
  rw [Key.compare_eq, compare_lt_of_segmentOf_lt hlt]
  rfl

theorem reaches_of_contains {range : TimeRange} (h : range.contains t = true) :
    x.reaches range (x.segmentOf t) = true := by
  obtain ⟨hl, hu⟩ := Bool.and_eq_true_iff.mp h
  have hle {u : Instant} (hu : (compare t u).isLT = true) : (compare t u).isLE = true := by
    rw [Ordering.isLT_iff_eq_lt.mp hu]
    rfl
  have hge {u : Instant} (hu : (compare u t).isLT = true) : (compare u t).isLE = true := by
    rw [Ordering.isLT_iff_eq_lt.mp hu]
    rfl
  rw [reaches, Bool.and_eq_true_iff]
  constructor
  · cases hb : range.lower with
    | unbounded => rfl
    | included u => exact decide_eq_true (segmentOf_le (by simpa [hb, Bound.admitsAbove] using hl))
    | excluded u => exact decide_eq_true (segmentOf_le (hge (by simpa [hb, Bound.admitsAbove] using hl)))
  · cases hb : range.upper with
    | unbounded => rfl
    | included u => exact decide_eq_true (segmentOf_le (by simpa [hb, Bound.admitsBelow] using hu))
    | excluded u => exact decide_eq_true (segmentOf_le (hle (by simpa [hb, Bound.admitsBelow] using hu)))

/-- A scan by time examines the keys in the range, if nobody holds a segment that it reaches. -/
theorem scan_eq (h : x.Sound) {range : TimeRange} (hfree : range.isEmpty = false →
      ∀ n ∈ x.directory, x.reaches range n = true → (x.segments.bucket n).held = false)
    (s : Scan) (p : Scan.Progress) :
    x.scan s range p = (x.keys.filter fun key => range.contains key.time).foldl s.examine p := by
  rw [scan]
  cases hr : range.isEmpty with
  | true => simp [TimeRange.contains_eq_false hr]
  | false =>
    rw [if_neg Bool.false_ne_true, keys, List.filter_flatMap, List.foldl_flatMap, List.foldl_filter]
    have key : ∀ ns : List Int, (∀ n ∈ ns, n ∈ x.directory) → ∀ p,
        ns.foldl (fun p n => if x.reaches range n = true then x.segments.scan s n range p else p) p =
        ns.foldl (fun p n => ((x.segments.bucket n).keys.toList.filter
          fun key => range.contains key.time).foldl s.examine p) p := by
      intro ns hns
      induction ns with
      | nil => exact fun _ => rfl
      | cons n ns ih =>
        intro p
        rw [List.foldl_cons, List.foldl_cons, ih fun m hm => hns m (List.mem_cons_of_mem n hm)]
        congr 1
        by_cases hn : x.reaches range n = true
        · rw [if_pos hn, Keyed.scan_eq fun he => hfree he n (hns n List.mem_cons_self) hn]
        · have hnone : ∀ k ∈ (x.segments.bucket n).keys.toList, ¬range.contains k.time = true := by
            intro k hk hc
            have hreach := reaches_of_contains (x := x) hc
            rw [h.placed n k hk] at hreach
            exact hn hreach
          rw [if_neg hn, List.filter_eq_nil_iff.mpr hnone, List.foldl_nil]
    exact key x.directory.toList (fun _ hn => hn) p

theorem scan_eq_used (range : TimeRange) (s : Scan) (p : Scan.Progress) : x.scan s range p =
    if range.isEmpty then p
    else ((x.directory.toList.filter (x.reaches range)).filter fun n => (x.segments.bucket n).used).foldl
      (fun p n => x.segments.scan s n range p) p := by
  have hskip : (fun p n => if (x.segments.bucket n).used = true then x.segments.scan s n range p else p) =
      fun p n => x.segments.scan s n range p := by
    funext p n
    cases hn : (x.segments.bucket n).used with
    | true => rw [if_pos rfl]
    | false => rw [if_neg Bool.false_ne_true, Keyed.scan_of_not_used hn]
  have hfold (ns : List Int) : (ns.filter fun n => (x.segments.bucket n).used).foldl
      (fun p n => x.segments.scan s n range p) p = ns.foldl (fun p n => x.segments.scan s n range p) p := by
    rw [List.foldl_filter, hskip]
  rw [scan, hfold]

theorem filter_used_eq (range : TimeRange) (hl : ∀ n, n ∈ x.directory ↔ x.segments.has n = true)
    (hl' : ∀ n, n ∈ x'.directory ↔ x'.segments.has n = true) (hwidth : x'.width = x.width)
    (hused : ∀ n, (x'.segments.bucket n).used = (x.segments.bucket n).used) :
    ((x'.directory.toList.filter (x'.reaches range)).filter fun n => (x'.segments.bucket n).used) =
      (x.directory.toList.filter (x.reaches range)).filter fun n => (x.segments.bucket n).used := by
  have hsegment : x'.segmentOf = x.segmentOf := by
    funext t
    rw [segmentOf, segmentOf, hwidth]
  have hreaches : x'.reaches range = x.reaches range := by
    funext n
    rw [reaches, reaches, hsegment]
  refine Ordered.eq_of_ascending_compare ((x'.directory.ascending.filter _).filter _)
    ((x.directory.ascending.filter _).filter _) fun n => ?_
  simp only [List.mem_filter, hreaches, hused]
  refine and_congr_left fun hu => and_congr_left fun _ => ?_
  exact iff_of_true ((hl' n).mpr (Keyed.has_of_used (hused n ▸ hu))) ((hl n).mpr (Keyed.has_of_used hu))

end Time
end Index
end FlightTrace
