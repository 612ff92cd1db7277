import FlightTrace.Index.Scan
import FlightTrace.OrderedMap
import FlightTrace.OrderedSet

/-! An index: for each value of one dimension a bucket with the keys of its records. A bucket is held
while an append writes to it; meanwhile nobody else can write or read it. Buckets come into being
when they are first held, and go when they are found empty and not held. -/
namespace FlightTrace
namespace Index

structure Bucket where
  keys : OrderedSet Key := ∅
  held : Bool := false

structure Keyed (κ : Type) [Ord κ] where
  /-- What the index is called when waiting for it takes too long. -/
  name : String
  buckets : OrderedMap κ Bucket := ∅

namespace Keyed

variable {κ : Type} [Ord κ] [Std.TransOrd κ]

def size (x : Keyed κ) : Nat := x.buckets.size

def isEmpty (x : Keyed κ) : Bool := x.buckets.isEmpty

def bucket (x : Keyed κ) (k : κ) : Bucket := (x.buckets.get? k).getD {}

/-- Takes hold of a bucket, which is made if need be. -/
def lock (x : Keyed κ) (k : κ) (timeout : Nat) : Except Error (Keyed κ) :=
  let b := x.bucket k
  if b.held then .error (.timeout x.name timeout)
  else .ok { x with buckets := x.buckets.insert k { b with held := true } }

def put (x : Keyed κ) (k : κ) (key : Key) : Keyed κ :=
  let b := x.bucket k
  { x with buckets := x.buckets.insert k { b with keys := b.keys.insert key } }

def release (x : Keyed κ) (k : κ) : Keyed κ :=
  match x.buckets.get? k with
  | some b => { x with buckets := x.buckets.insert k { b with held := false } }
  | none => x

/-- Whether a bucket is there only because it was once held. -/
def isIdle (x : Keyed κ) (k : κ) : Bool :=
  match x.buckets.get? k with
  | some b => !b.held && b.keys.isEmpty
  | none => false

def prune (x : Keyed κ) (k : κ) : Keyed κ :=
  if x.isIdle k then { x with buckets := x.buckets.erase k } else x

def scan (x : Keyed κ) (s : Scan) (k : κ) (range : TimeRange) (p : Scan.Progress) : Scan.Progress :=
  match p.stop, KeyRange.ofTimeRange? range, x.buckets.get? k with
  | none, some r, some b =>
    if b.held then { p with stop := some (.timeout x.name s.lockTimeout) }
    else (b.keys.toList.filter r.contains).foldl s.examine p
  | _, _, _ => p

end Keyed
end Index
end FlightTrace
