import FlightTrace.Error
import FlightTrace.Index.Key

/-! Scans. A scan shows only records below a fixed mark, counts all keys that it examines, and asks
after every so many of them whether it has been cancelled. -/
namespace FlightTrace
namespace Index

structure Scan where
  /-- Records from this number on stay hidden. -/
  watermark : Nat
  /-- How long to wait for a bucket, in milliseconds. -/
  lockTimeout : Nat
  /-- After how many keys to ask for cancellation. -/
  interval : Nat
  /-- Whether the scan is found cancelled when so many keys have been examined. -/
  cancelled : Nat → Bool := fun _ => false

namespace Scan

structure Progress where
  scanned : Nat := 0
  found : List Key := []
  /-- Why the scan has stopped. -/
  stop : Option Error := none
deriving DecidableEq

/-- Examines one key, unless the scan has stopped. -/
def examine (s : Scan) (p : Progress) (k : Key) : Progress :=
  if p.stop.isSome then p
  else
    let p := { p with scanned := p.scanned + 1 }
    if p.scanned % max s.interval 1 = 0 ∧ s.cancelled p.scanned then
      { p with stop := some .cancelled }
    else if k.id.val < s.watermark then { p with found := p.found ++ [k] }
    else p

end Scan
end Index
end FlightTrace
