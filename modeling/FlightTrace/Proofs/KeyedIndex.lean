import FlightTrace.Proofs.TimeIndex

/-! An index in use, by one dimension or by time. Its users take hold of any number of buckets, put keys into those
that they hold, let go of them and prune them, in any order. No key that was put in is lost, for a bucket goes only
while nobody holds it and nothing is in it; and what was not put in is not there. -/
namespace FlightTrace
namespace Index

/-- A scan that is not cancelled examines the keys of one kind in their order, and finds those that it may show. -/
def Scan.Finds (scan : Scan → Scan.Progress → Scan.Progress) (P : Key → Prop) : Prop :=
  ∃ ks : List Key, (ks.Pairwise fun a b => compare a b = .lt) ∧ (∀ key, key ∈ ks ↔ P key) ∧
    ∀ s p, (∀ n, s.cancelled n = false) → p.stop = none → scan s p =
      ⟨p.scanned + ks.length, p.found ++ ks.filter fun key => key.id.val < s.watermark, none⟩

theorem Scan.finds_of_foldl {scan : Scan → Scan.Progress → Scan.Progress} {P : Key → Prop} {ks : List Key}
    (hks : ks.Pairwise fun a b => compare a b = .lt) (hmem : ∀ key, key ∈ ks ↔ P key)
    (hscan : ∀ s p, scan s p = ks.foldl s.examine p) : Finds scan P := by
  refine ⟨ks, hks, hmem, fun s p hcancelled hstop => ?_⟩
  rw [hscan, foldl_examine_free hcancelled hstop]

namespace Keyed

variable {κ : Type} [Ord κ] {x : Keyed κ} {puts : List (κ × Key)} {k : κ}

theorem finds_of_free {P : Key → Prop} (hfree : (x.bucket k).held = false)
    (hmem : ∀ key, key ∈ (x.bucket k).keys ↔ P key) : Scan.Finds (fun s p => x.scan s k .all p) P := by
  refine Scan.finds_of_foldl (x.bucket k).keys.ascending hmem fun s p => ?_
  have hall : ((x.bucket k).keys.toList.filter fun key => TimeRange.all.contains key.time) =
    (x.bucket k).keys.toList := List.filter_eq_self.mpr fun _ _ => rfl
  rw [scan_eq fun _ => hfree, hall]

/-- The buckets have the keys that were put into them, and no others. -/
def Keeps (x : Keyed κ) (puts : List (κ × Key)) : Prop := ∀ k key, key ∈ (x.bucket k).keys ↔ (k, key) ∈ puts

theorem Keeps.finds (h : x.Keeps puts) (hfree : (x.bucket k).held = false) :
    Scan.Finds (fun s p => x.scan s k .all p) fun key => (k, key) ∈ puts := finds_of_free hfree (h k)

inductive Use (κ : Type) where
  | lock (k : κ) (timeout : Nat)
  | put (k : κ) (key : Key)
  | release (k : κ)
  | prune (k : κ)

variable [Std.TransOrd κ]

/-- The index after one use of it. A key can be put only into a bucket that is held. -/
def step (x : Keyed κ) : Use κ → Keyed κ
  | .lock k timeout =>
    match x.lock k timeout with
    | .ok x' => x'
    | .error _ => x
  | .put k key => if (x.bucket k).held then x.put k key else x
  | .release k => x.release k
  | .prune k => x.prune k

def entered (x : Keyed κ) : Use κ → List (κ × Key)
  | .put k key => if (x.bucket k).held then [(k, key)] else []
  | .lock _ _ | .release _ | .prune _ => []

/-- An index, and the keys that were put into it. -/
structure History (κ : Type) [Ord κ] where
  index : Keyed κ
  puts : List (κ × Key) := []

namespace History

def step (h : History κ) (u : Use κ) : History κ := ⟨h.index.step u, h.puts ++ h.index.entered u⟩

def run (name : String) (uses : List (Use κ)) : History κ := uses.foldl step { index := { name } }

end History

variable [Std.LawfulEqOrd κ] [DecidableEq κ]

theorem Keeps.step (h : x.Keeps puts) (u : Use κ) : (x.step u).Keeps (puts ++ x.entered u) := by
  intro j key
  cases u with
  | lock k timeout =>
    rw [entered, List.append_nil, ← h j key, Keyed.step]
    cases hl : x.lock k timeout with
    | error e => rfl
    | ok x' =>
      simp only [bucket_of_lock hl]
      split <;> rfl
  | put k new =>
    rw [entered, Keyed.step]
    by_cases hheld : (x.bucket k).held = true
    · rw [if_pos hheld, if_pos hheld, bucket_put, List.mem_append, List.mem_singleton, Prod.mk.injEq]
      by_cases hj : k = j
      · rw [if_pos hj, OrderedSet.mem_insert, h j key, or_comm, and_iff_right hj.symm]
      · rw [if_neg hj, h j key]
        exact (or_iff_left fun he => hj he.1.symm).symm
    · rw [if_neg hheld, if_neg hheld, List.append_nil, h j key]
  | release k =>
    rw [entered, List.append_nil, ← h j key, Keyed.step, bucket_release]
    split <;> rfl
  | prune k => rw [entered, List.append_nil, ← h j key, Keyed.step, bucket_prune]

theorem History.run_keeps (name : String) (uses : List (Use κ)) :
    (run name uses).index.Keeps (run name uses).puts := by
  induction uses using List.reverseRecOn with
  | nil => exact fun _ _ => iff_of_false OrderedSet.not_mem_empty List.not_mem_nil
  | append_singleton uses u ih =>
    rw [run, List.foldl_append]
    exact ih.step u

/-- A bucket goes only while nobody holds it and nothing is in it. -/
theorem idle_of_gone {u : Use κ} (hhas : x.has k = true) (hgone : (x.step u).has k = false) :
    (x.bucket k).held = false ∧ (x.bucket k).keys = ∅ := by
  have hstays (hstep : (x.step u).has k = true) : (x.bucket k).held = false ∧ (x.bucket k).keys = ∅ := by
    rw [hstep] at hgone
    cases hgone
  cases u with
  | lock j timeout =>
    refine hstays ?_
    rw [step]
    cases hl : x.lock j timeout with
    | error e => exact hhas
    | ok x' => exact (has_of_lock hl).mpr (.inr hhas)
  | put j key =>
    refine hstays ?_
    rw [step]
    split
    · exact (has_put key).mpr (.inr hhas)
    · exact hhas
  | release j => exact hstays (has_release.trans hhas)
  | prune j =>
    by_cases hidle : x.isIdle k = true
    · exact (isIdle_iff.mp hidle).2
    · exact hstays (has_prune.mpr ⟨hhas, fun h => hidle h.2⟩)

end Keyed

namespace Time

variable {x : Time} {ks : List Key} {range : TimeRange} {n : Int}

/-- What one use of an index by time is for its segments. -/
def Use.onSegments (x : Time) : Use → Keyed.Use Int
  | .lock t timeout => .lock (x.segmentOf t) timeout
  | .put key => .put (x.segmentOf key.time) key
  | .release t => .release (x.segmentOf t)
  | .prune t => .prune (x.segmentOf t)

theorem History.segments_step (h : History) (u : Use) :
    (h.step u).index.segments = h.index.segments.step (u.onSegments h.index) := by
  cases u with
  | lock t timeout =>
    rw [step, Use.onSegments, Keyed.step, Time.lock]
    cases h.index.segments.lock (h.index.segmentOf t) timeout <;> rfl
  | put key =>
    rw [step, Use.onSegments, Keyed.step, bucket]
    split <;> rfl
  | release t => rfl
  | prune t =>
    rw [step, Use.onSegments, Keyed.step, Time.prune, Keyed.prune]
    split <;> rfl

/-- Whoever scans a range of segments that nobody holds finds the keys of this range that were put in. -/
theorem Keeps.finds (h : x.Keeps ks) (hfree : x.FreeFor range) :
    Scan.Finds (fun s p => x.scan s range p) fun key => key ∈ ks ∧ range.contains key.time = true := by
  refine Scan.finds_of_foldl ((OrderedSet.ascending _).filter _) (fun key => ?_) fun s p => h.scan_eq hfree s p
  rw [List.mem_filter]
  exact and_congr_left fun _ => OrderedSet.mem_ofList

theorem Keeps.finds_segment (h : x.Keeps ks) (hfree : (x.segments.bucket n).held = false) :
    Scan.Finds (fun s p => x.segments.scan s n .all p) fun key => key ∈ ks ∧ x.segmentOf key.time = n :=
  Keyed.finds_of_free hfree (h.mem_iff n)

end Time
end Index
end FlightTrace
