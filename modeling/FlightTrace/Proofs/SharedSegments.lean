import FlightTrace.Proofs.SharedBuckets

/-! Shared segments. The index by time has its segments by reference and lists them in a directory. A segment that is
made for nothing is removed in two ways: by pruning, which strikes it off the directory, and when the time to wait for
it is out, which does not look at the directory at all. The directory still lists the segments that exist. -/
namespace FlightTrace
namespace Index

structure SharedTime where
  width : Int
  segments : Shared Int := { name := "time index" }
  directory : OrderedSet Int := ∅
  width_pos : 0 < width

namespace SharedTime

def ofWidth (width : Int) : SharedTime := { width := max width 1, width_pos := (Time.ofWidth width).width_pos }

def segmentOf (x : SharedTime) (t : Instant) : Int := t.second / x.width

/-- Takes hold of the segment of an instant. Only once it is held does the directory list it. -/
def lock (x : SharedTime) (t : Instant) (timeout : Nat) : Except Error Unit × SharedTime :=
  let n := x.segmentOf t
  match x.segments.lock n timeout with
  | (.error e, segments) => (.error e, { x with segments })
  | (.ok (), segments) =>
    let directory := if x.directory.contains n then x.directory else x.directory.insert n
    (.ok (), { x with segments, directory })

def put (x : SharedTime) (key : Key) : SharedTime :=
  { x with segments := x.segments.put (x.segmentOf key.time) key }

def release (x : SharedTime) (t : Instant) : SharedTime :=
  { x with segments := x.segments.release (x.segmentOf t) }

def prune (x : SharedTime) (t : Instant) : SharedTime :=
  let n := x.segmentOf t
  if x.segments.isUnused n then
    { x with segments := x.segments.prune n, directory := x.directory.erase n }
  else x

def step (x : SharedTime) : Time.Use → SharedTime
  | .lock t timeout => (x.lock t timeout).2
  | .put key => x.put key
  | .release t => x.release t
  | .prune t => x.prune t

def run (width : Int) (uses : List Time.Use) : SharedTime := uses.foldl step (.ofWidth width)

def view (x : SharedTime) : Time := { x with segments := x.segments.view }

def scan (x : SharedTime) (s : Scan) (range : TimeRange) (p : Scan.Progress) : Scan.Progress :=
  if range.isEmpty then p
  else
    (x.directory.toList.filter (x.view.reaches range)).foldl (fun p n => x.segments.scan s n range p) p

variable {x : SharedTime} {t : Instant}

theorem scan_view : x.view.scan = x.scan := by
  funext s range p
  rw [Time.scan, scan, ← Shared.scan_view]
  rfl

variable (h : x.segments.Linked)
include h

theorem lock_of_held (timeout : Nat) (hheld : (x.segments.view.bucket (x.segmentOf t)).held = true) :
    x.lock t timeout = (.error (.timeout x.segments.name timeout), x) := by
  rw [lock, h.lock_of_held timeout hheld]

theorem lock_of_free (timeout : Nat) (hfree : (x.segments.view.bucket (x.segmentOf t)).held = false) :
    ∃ x', x.lock t timeout = (.ok (), x') ∧ x'.segments.Linked ∧ x.view.lock t timeout = .ok x'.view := by
  obtain ⟨segments, hlock, hlinked, hview⟩ := h.lock_of_free timeout hfree
  refine ⟨_, by rw [lock, hlock], hlinked, Time.lock_eq_ok_iff.mpr ⟨_, hview, ?_⟩⟩
  have hdirectory : (if x.directory.contains (x.segmentOf t) then x.directory else x.directory.insert (x.segmentOf t)) =
      x.directory.insert (x.segmentOf t) := by
    split
    · rename_i hmem
      refine OrderedSet.ext fun n => ?_
      rw [OrderedSet.mem_insert]
      refine (or_iff_right_of_imp ?_).symm
      rintro rfl
      exact OrderedSet.contains_iff.mp hmem
    · rfl
  rw [view, hdirectory]
  rfl

theorem lock_error {timeout : Nat} {e : Error} (he : (x.lock t timeout).1 = .error e) :
    x.view.lock t timeout = .error e ∧ (x.lock t timeout).2 = x := by
  cases hheld : (x.segments.view.bucket (x.segmentOf t)).held with
  | true =>
    rw [lock_of_held h timeout hheld] at he ⊢
    obtain rfl := Except.error.inj he
    obtain ⟨hsegment, -⟩ := h.lock_error (congrArg Prod.fst (h.lock_of_held timeout hheld))
    exact ⟨congrArg (· >>= _) hsegment, rfl⟩
  | false =>
    obtain ⟨x', hlock, -, -⟩ := lock_of_free h timeout hheld
    rw [hlock] at he
    cases he

/-- One use of an index is the same for the index with its segments to itself. -/
theorem step_linked (u : Time.Use) (ks : List Key) :
    (x.step u).segments.Linked ∧ (x.step u).view = (Time.History.step ⟨x.view, ks⟩ u).index := by
  cases u with
  | lock t timeout =>
    rw [step, Time.History.step]
    cases hheld : (x.segments.view.bucket (x.segmentOf t)).held with
    | true =>
      have hlock := lock_of_held h timeout hheld
      rw [(lock_error h (congrArg Prod.fst hlock)).1, hlock]
      exact ⟨h, rfl⟩
    | false =>
      obtain ⟨x', hlock, hlinked, hview⟩ := lock_of_free h timeout hheld
      rw [hlock, hview]
      exact ⟨hlinked, rfl⟩
  | put key =>
    rw [step, put, Time.History.step]
    cases hheld : (x.segments.view.bucket (x.segmentOf key.time)).held with
    | true =>
      obtain ⟨hlinked, hview⟩ := h.put_of_held key hheld
      rw [if_pos (show (x.view.bucket key.time).held = true from hheld)]
      exact ⟨hlinked, congrArg (fun segments => { x.view with segments }) hview⟩
    | false =>
      rw [if_neg (show ¬(x.view.bucket key.time).held = true from Bool.eq_false_iff.mp hheld), h.put_of_free hheld]
      exact ⟨h, rfl⟩
  | release t =>
    exact ⟨h.release.1, congrArg (fun segments => { x.view with segments }) h.release.2⟩
  | prune t =>
    rw [step, prune, Time.History.step, Time.prune, h.isUnused_eq]
    show _ ∧ _ = ite (x.segments.view.isIdle (x.segmentOf t) = true) _ _
    split
    · exact ⟨h.prune, congrArg (fun segments =>
        { x.view with segments, directory := x.directory.erase (x.segmentOf t) }) h.view_prune⟩
    · exact ⟨h, rfl⟩

omit h in
theorem run_linked (width : Int) (uses : List Time.Use) :
    (run width uses).segments.Linked ∧ (run width uses).view = (Time.History.run width uses).index := by
  induction uses using List.reverseRecOn with
  | nil => exact ⟨.empty, rfl⟩
  | append_singleton uses u ih =>
    rw [run, Time.History.run, List.foldl_append, List.foldl_append]
    obtain ⟨hlinked, hview⟩ := ih
    have hstep := step_linked hlinked u (Time.History.run width uses).keys
    rw [hview] at hstep
    exact hstep

/-- A segment that is waited for in vain stays, as does one with a key in it. An empty one goes once it is let go of. -/
example :
    let t : Instant := ⟨59, 1500000000, by decide, by decide⟩
    let u : Instant := ⟨60, 0, by decide, by decide⟩
    let x := run 60 [.lock t 50, .lock u 50, .lock t 50, .put ⟨t, .min⟩, .release t, .prune t, .prune u]
    x.directory.toList = [0, 1] ∧ x.segments.size = 2 ∧
      ((x.release u).prune u).directory.toList = [0] ∧ ((x.release u).prune u).segments.size = 1 := by
  decide

end SharedTime

/-- Buckets are taken hold of, filled, let go of and pruned in any order, and as many are held at a time as users like.
In an index that has its buckets by reference all goes as in one that has them to itself: it has the same buckets, and
scans of it, which change nothing, find the same. A scan of all of a bucket that nobody holds finds the keys that were
put into it, a bucket goes only while nobody holds it and nothing is in it, and whoever waits for one until the time is
out leaves as many as there were. So do the segments of an index by time; a scan of it finds the keys in its range
unless somebody holds a segment that it reaches, and the directory lists the segments that exist and no others. -/
theorem lock_and_prune_lose_no_key :
    (∀ (κ : Type) [Ord κ] [Std.TransOrd κ] [Std.LawfulEqOrd κ] [DecidableEq κ] (name : String)
      (uses : List (Keyed.Use κ)),
      let h := Keyed.History.run name uses
      let x := Shared.run name uses
      (x.view = h.index ∧ x.scan = h.index.scan ∧ x.size = h.index.size) ∧
      (∀ k, (h.index.bucket k).held = false →
        Scan.Finds (fun s p => h.index.scan s k .all p) fun key => (k, key) ∈ h.puts) ∧
      (∀ u k, h.index.has k = true → (h.index.step u).has k = false →
        (h.index.bucket k).held = false ∧ (h.index.bucket k).keys = ∅) ∧
      ∀ k timeout e, (x.lock k timeout).1 = .error e →
        h.index.lock k timeout = .error e ∧ (x.lock k timeout).2.size = x.size) ∧
    ∀ (width : Int) (uses : List Time.Use),
      let h := Time.History.run width uses
      let x := SharedTime.run width uses
      (x.view = h.index ∧ x.scan = h.index.scan ∧ x.segments.size = h.index.segments.size) ∧
      (∀ n, (h.index.segments.bucket n).held = false → Scan.Finds (fun s p => h.index.segments.scan s n .all p)
        fun key => key ∈ h.keys ∧ h.index.segmentOf key.time = n) ∧
      (∀ range, h.index.FreeFor range → Scan.Finds (fun s p => h.index.scan s range p)
        fun key => key ∈ h.keys ∧ range.contains key.time = true) ∧
      (∀ u n, h.index.segments.has n = true → (h.step u).index.segments.has n = false →
        (h.index.segments.bucket n).held = false ∧ (h.index.segments.bucket n).keys = ∅) ∧
      (∀ t timeout e, (x.lock t timeout).1 = .error e →
        h.index.lock t timeout = .error e ∧ (x.lock t timeout).2.segments.size = x.segments.size) ∧
      ∀ n, n ∈ h.index.directory ↔ h.index.segments.has n = true := by
  refine ⟨fun κ _ _ _ _ name uses => ?_, fun width uses => ?_⟩
  · intro h x
    obtain ⟨hlinked, hview⟩ := Shared.run_linked name uses
    have hkeeps := Keyed.History.run_keeps name uses
    refine ⟨⟨hview, ?_, ?_⟩, fun k hfree => hkeeps.finds hfree, fun u k => Keyed.idle_of_gone,
      fun k timeout e he => ?_⟩
    · exact hview ▸ Shared.scan_view.symm
    · exact hview ▸ Shared.size_view.symm
    · obtain ⟨hlock, hsame⟩ := hlinked.lock_error he
      exact ⟨hview ▸ hlock, congrArg Shared.size hsame⟩
  · intro h x
    obtain ⟨hlinked, hview⟩ := SharedTime.run_linked width uses
    have hkeeps := Time.History.run_keeps width uses
    refine ⟨⟨hview, ?_, ?_⟩, fun n hfree => hkeeps.finds_segment hfree, fun range hfree => hkeeps.finds hfree,
      fun u n hhas hgone => ?_, fun t timeout e he => ?_, hkeeps.listed⟩
    · exact hview ▸ SharedTime.scan_view.symm
    · exact hview ▸ Shared.size_view.symm
    · rw [Time.History.segments_step] at hgone
      exact Keyed.idle_of_gone hhas hgone
    · obtain ⟨hlock, hsame⟩ := SharedTime.lock_error hlinked he
      exact ⟨hview ▸ hlock, congrArg (fun y => y.segments.size) hsame⟩

end Index
end FlightTrace
