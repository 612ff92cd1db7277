import FlightTrace.Index.Keyed

/-! The index of all records by time, cut into segments of equal width. A directory of the segments
that exist keeps scans from looking for the others. -/
namespace FlightTrace
namespace Index

structure Time where
  /-- The width of a segment, in seconds. -/
  width : Int
  segments : Keyed Int := { name := "time index" }
  directory : OrderedSet Int := ∅
  width_pos : 0 < width

namespace Time

/-- An empty index. A width below one second counts as one. -/
def ofWidth (width : Int) : Time := { width := max width 1, width_pos := by omega }

def segmentOf (x : Time) (t : Instant) : Int := t.second / x.width

def lock (x : Time) (t : Instant) (timeout : Nat) : Except Error Time := do
  let n := x.segmentOf t
  let segments ← x.segments.lock n timeout
  return { x with segments, directory := x.directory.insert n }

def put (x : Time) (key : Key) : Time :=
  { x with segments := x.segments.put (x.segmentOf key.time) key }

def release (x : Time) (t : Instant) : Time :=
  { x with segments := x.segments.release (x.segmentOf t) }

def prune (x : Time) (t : Instant) : Time :=
  let n := x.segmentOf t
  if x.segments.isIdle n then
    { x with segments := x.segments.prune n, directory := x.directory.erase n }
  else x

def bucket (x : Time) (t : Instant) : Bucket := x.segments.bucket (x.segmentOf t)

def reaches (x : Time) (range : TimeRange) (n : Int) : Bool :=
  (match range.lower with
    | .unbounded => true
    | .included t | .excluded t => x.segmentOf t ≤ n) &&
  (match range.upper with
    | .unbounded => true
    | .included t | .excluded t => n ≤ x.segmentOf t)

/-- Examines the segments of a range in the order of time. -/
def scan (x : Time) (s : Scan) (range : TimeRange) (p : Scan.Progress) : Scan.Progress :=
  if range.isEmpty then p
  else
    (x.directory.toList.filter (x.reaches range)).foldl (fun p n => x.segments.scan s n range p) p

end Time
end Index
end FlightTrace
