import FlightTrace.Proofs.Buckets

/-! An index by time in use. Its users take hold of segments, put keys into those that they hold, let go of them
and prune them, in any order. The keys that were put into it lie in the segments of their times, whatever the
width of a segment, so a scan finds what it would find in one ordered set of all keys. -/
namespace FlightTrace

/-- Whether an ordered set can be asked for what lies between two ends: they are the right way round, and are not
the same value that both ends leave out. -/
def Bound.Meets {α : Type} [Ord α] : Bound α → Bound α → Prop
  | .unbounded, _ | _, .unbounded => True
  | .excluded a, .excluded b => compare a b = .lt
  | .included a, .included b | .included a, .excluded b | .excluded a, .included b => (compare a b).isLE = true

namespace Index.Time

variable {x : Time} {range : TimeRange} {n : Int}

/-- The end of a range of segments. The segment of an instant may hold keys on either side of it. -/
def segmentBound (x : Time) : Bound Instant → Bound Int
  | .unbounded => .unbounded
  | .included t | .excluded t => .included (x.segmentOf t)

theorem reaches_eq : x.reaches range n =
    ((x.segmentBound range.lower).admitsAbove n && (x.segmentBound range.upper).admitsBelow n) := by
  have hle (a b : Int) : decide (a ≤ b) = (compare a b).isLE := by
    rw [Bool.eq_iff_iff, decide_eq_true_eq, Int.isLE_compare]
  rw [reaches]
  cases range.lower <;> cases range.upper <;> simp only [segmentBound, Bound.admitsAbove, Bound.admitsBelow, hle]

theorem le_of_not_isEmpty {l u : Bound Instant} {a b : Instant} (hl : l = .included a ∨ l = .excluded a)
    (hu : u = .included b ∨ u = .excluded b) (hr : (⟨l, u⟩ : TimeRange).isEmpty = false) :
    (compare a b).isLE = true := by
  rcases hl with rfl | rfl <;> rcases hu with rfl | rfl <;> simp only [TimeRange.isEmpty] at hr <;>
    cases hc : compare a b <;> simp_all

/-- A range that can hold an instant is between segments that are the right way round. -/
theorem segmentBound_meets (x : Time) (hr : range.isEmpty = false) :
    (x.segmentBound range.lower).Meets (x.segmentBound range.upper) := by
  have hmeets {a b : Instant} (hl : range.lower = .included a ∨ range.lower = .excluded a)
      (hu : range.upper = .included b ∨ range.upper = .excluded b) :
      (Bound.included (x.segmentOf a)).Meets (.included (x.segmentOf b)) :=
    Int.isLE_compare.mpr (segmentOf_le (le_of_not_isEmpty hl hu hr))
  cases hl : range.lower with
  | unbounded => trivial
  | included a =>
    cases hu : range.upper with
    | unbounded => trivial
    | included b => exact hmeets (.inl hl) (.inl hu)
    | excluded b => exact hmeets (.inl hl) (.inr hu)
  | excluded a =>
    cases hu : range.upper with
    | unbounded => trivial
    | included b => exact hmeets (.inr hl) (.inl hu)
    | excluded b => exact hmeets (.inr hl) (.inr hu)

/-- Nobody holds a segment that a scan of a range looks at. -/
def FreeFor (x : Time) (range : TimeRange) : Prop :=
  ∀ n, x.reaches range n = true → (x.segments.bucket n).held = false

/-- One use of an index. Only into a segment that is held is a key put. -/
inductive Use where
  | lock (t : Instant) (timeout : Nat)
  | put (key : Key)
  | release (t : Instant)
  | prune (t : Instant)

structure History where
  index : Time
  keys : List Key := []

namespace History

def step (h : History) : Use → History
  | .lock t timeout =>
    match h.index.lock t timeout with
    | .ok index => { h with index }
    | .error _ => h
  | .put key => if (h.index.bucket key.time).held then ⟨h.index.put key, h.keys ++ [key]⟩ else h
  | .release t => { h with index := h.index.release t }
  | .prune t => { h with index := h.index.prune t }

def run (width : Int) (uses : List Use) : History := uses.foldl step { index := .ofWidth width }

end History

/-- The directory names the segments that exist, and the keys that were put into the index are in the segments of
their times. -/
structure Keeps (x : Time) (ks : List Key) : Prop where
  listed : ∀ n, n ∈ x.directory ↔ x.segments.has n = true
  mem_iff : ∀ n k, k ∈ (x.segments.bucket n).keys ↔ k ∈ ks ∧ x.segmentOf k.time = n

namespace Keeps

variable {ks ks' : List Key} {t : Instant} {timeout : Nat} {x' : Time}

theorem ofWidth (width : Int) : (Time.ofWidth width).Keeps [] where
  listed _ := iff_of_false OrderedSet.not_mem_empty Bool.false_ne_true
  mem_iff _ _ := iff_of_false OrderedSet.not_mem_empty fun h => List.not_mem_nil h.1

theorem sound (h : x.Keeps ks) : x.Sound := ⟨h.listed, fun n k hk => ((h.mem_iff n k).mp hk).2⟩

theorem lock (h : x.Keeps ks) (hl : x.lock t timeout = .ok x') : x'.Keeps ks := by
  refine ⟨listed_lock h.listed hl, fun n k => ?_⟩
  obtain ⟨segments, hseg, rfl⟩ := lock_eq_ok_iff.mp hl
  refine Iff.trans ?_ (h.mem_iff n k)
  rw [Keyed.bucket_of_lock hseg]
  split <;> rfl

theorem put (h : x.Keeps ks) {key : Key} (hheld : (x.bucket key.time).held = true) :
    (x.put key).Keeps (ks ++ [key]) := by
  have hhas : x.segments.has (x.segmentOf key.time) = true :=
    Keyed.has_of_used (by rw [Bucket.used, show (x.segments.bucket _).held = true from hheld, Bool.true_or])
  refine ⟨fun n => ?_, fun n k => ?_⟩
  · refine (h.listed n).trans ?_
    rw [Time.put, Keyed.has_put]
    exact (or_iff_right_of_imp fun hn => hn ▸ hhas).symm
  · rw [Time.put, Keyed.bucket_put, List.mem_append, List.mem_singleton]
    by_cases hn : x.segmentOf key.time = n
    · rw [if_pos hn, OrderedSet.mem_insert, h.mem_iff]
      constructor
      · rintro (rfl | ⟨hk, hkn⟩)
        · exact ⟨.inr rfl, hn⟩
        · exact ⟨.inl hk, hkn⟩
      · rintro ⟨hk | rfl, hkn⟩
        · exact .inr ⟨hk, hkn⟩
        · exact .inl rfl
    · rw [if_neg hn, h.mem_iff]
      refine and_congr_left fun hkn => (or_iff_left ?_).symm
      rintro rfl
      exact hn hkn

theorem release (h : x.Keeps ks) (t : Instant) : (x.release t).Keeps ks := by
  refine ⟨fun n => ?_, fun n k => ?_⟩
  · rw [Time.release, Keyed.has_release]
    exact h.listed n
  · refine Iff.trans ?_ (h.mem_iff n k)
    rw [Time.release, Keyed.bucket_release]
    split <;> rfl

theorem prune (h : x.Keeps ks) (t : Instant) : (x.prune t).Keeps ks := by
  refine ⟨listed_prune h.listed t, fun n k => ?_⟩
  rw [Time.prune]
  by_cases hi : x.segments.isIdle (x.segmentOf t) = true
  · rw [if_pos hi, Keyed.bucket_prune]
    exact h.mem_iff n k
  · rw [if_neg hi]
    exact h.mem_iff n k

/-- The segments one after the other have the keys in their order. -/
theorem keys_eq (h : x.Keeps ks) : x.keys = (OrderedSet.ofList ks).toList := by
  refine Ordered.eq_of_ascending_compare (keys_ascending h.sound) (OrderedSet.ascending _) fun k => ?_
  rw [mem_keys_iff h.sound, h.mem_iff]
  exact (and_iff_left rfl).trans OrderedSet.mem_ofList.symm

/-- A scan of segments that nobody holds is one of an ordered set. -/
theorem scan_eq (h : x.Keeps ks) (hfree : x.FreeFor range) (s : Scan) (p : Scan.Progress) : x.scan s range p =
    ((OrderedSet.ofList ks).toList.filter fun k => range.contains k.time).foldl s.examine p := by
  rw [Time.scan_eq h.sound fun _ n _ => hfree n, h.keys_eq]

end Keeps

namespace History

theorem step_keeps {h : History} (hk : h.index.Keeps h.keys) (u : Use) :
    (h.step u).index.Keeps (h.step u).keys := by
  cases u with
  | lock t timeout =>
    rw [step]
    cases hl : h.index.lock t timeout with
    | ok x => exact hk.lock hl
    | error e => exact hk
  | put key =>
    rw [step]
    split
    · rename_i hheld
      exact hk.put hheld
    · exact hk
  | release t => exact hk.release t
  | prune t => exact hk.prune t

theorem run_keeps (width : Int) (uses : List Use) : (run width uses).index.Keeps (run width uses).keys := by
  induction uses using List.reverseRecOn with
  | nil => exact .ofWidth width
  | append_singleton uses u ih =>
    rw [run, List.foldl_append]
    exact step_keeps ih u

end History

def Use.insert (timeout : Nat) (k : Key) : List Use := [.lock k.time timeout, .put k, .release k.time]

namespace History

theorem foldl_insert {h : History} (hfree : ∀ n, (h.index.segments.bucket n).held = false) (timeout : Nat)
    (k : Key) : let h' := (Use.insert timeout k).foldl step h
      h'.keys = h.keys ++ [k] ∧ ∀ n, (h'.index.segments.bucket n).held = false := by
  let m := h.index.segmentOf k.time
  obtain ⟨segments, hseg⟩ : ∃ segments, h.index.segments.lock m timeout = .ok segments :=
    ⟨_, Keyed.lock_eq_ok_iff.mpr ⟨hfree m, rfl⟩⟩
  let x : Time := { h.index with segments, directory := h.index.directory.insert m }
  have hlock : h.step (.lock k.time timeout) = ⟨x, h.keys⟩ := by
    rw [step, lock_eq_ok_iff.mpr ⟨segments, hseg, rfl⟩]
  have hheld : (segments.bucket m).held = true := by
    rw [Keyed.bucket_of_lock hseg, if_pos rfl]
  have hput : step ⟨x, h.keys⟩ (.put k) = ⟨x.put k, h.keys ++ [k]⟩ := if_pos hheld
  have hend : (Use.insert timeout k).foldl step h = ⟨(x.put k).release k.time, h.keys ++ [k]⟩ := by
    rw [Use.insert, List.foldl_cons, hlock, List.foldl_cons, hput]
    rfl
  simp only [hend, true_and]
  intro n
  show (((segments.put m k).release m).bucket n).held = false
  by_cases hn : m = n
  · rw [Keyed.bucket_release, if_pos hn]
  · rw [Keyed.bucket_release, if_neg hn, Keyed.bucket_put, if_neg hn, Keyed.bucket_of_lock hseg, if_neg hn]
    exact hfree n

theorem run_inserts (width : Int) (timeout : Nat) (ks : List Key) :
    let h := run width (ks.flatMap (Use.insert timeout))
    h.keys = ks ∧ ∀ n, (h.index.segments.bucket n).held = false := by
  induction ks using List.reverseRecOn with
  | nil => exact ⟨rfl, fun _ => rfl⟩
  | append_singleton ks k ih =>
    obtain ⟨hkeys, hfree⟩ := ih
    rw [List.flatMap_append, List.flatMap_singleton, run, List.foldl_append]
    obtain ⟨hkeys', hfree'⟩ := foldl_insert hfree timeout k
    exact ⟨hkeys'.trans (congrArg (· ++ [k]) hkeys), hfree'⟩

/-- A leap second, the minute after it and the last second before 1970, each in a segment of its own. -/
example :
    let leap : Key := ⟨⟨59, 1500000000, by decide, by decide⟩, .min⟩
    let minute : Key := ⟨⟨60, 0, by decide, by decide⟩, .min⟩
    let before : Key := ⟨⟨-1, 0, by decide, by decide⟩, .min⟩
    let h := run 60 ([minute, leap, before].flatMap (Use.insert 0))
    h.index.directory.toList = [-1, 0, 1] ∧
      (h.index.scan { watermark := 1, lockTimeout := 0, interval := 1 } .all {}).found = [before, leap, minute] := by
  decide

end History
end Index.Time
end FlightTrace
