import FlightTrace.Error
import FlightTrace.Log
import FlightTrace.Settings

/-! The configuration of a store, and which configurations are accepted. -/
namespace FlightTrace

structure Config where
  durability : String := "standard"
  /-- In milliseconds. -/
  lockTimeout : { n : Nat // n < 0x10000000000000000 } := ⟨250, by decide⟩
  /-- In seconds. -/
  bucketWidth : { n : Int // -0x8000000000000000 ≤ n ∧ n < 0x8000000000000000 } := ⟨3600, by decide⟩
  cancelInterval : { n : Nat // n < 0x10000000000000000 } := ⟨1024, by decide⟩
deriving DecidableEq

namespace Config

/-- The configuration of a store that names none. -/
def standard : Config := {}

def mode (c : Config) : Except ConfigFault Durability :=
  match c.durability with
  | "standard" => .ok (.batched 100 1000)
  | "always" => .ok .strict
  | other => .error (.durability other)

def settings (c : Config) : Except ConfigFault Settings :=
  if c.lockTimeout.val = 0 then .error .lockTimeout
  else if c.bucketWidth.val ≤ 0 then .error (.bucketWidth c.bucketWidth)
  else if c.cancelInterval.val = 0 then .error .cancelInterval
  else .ok ⟨c.lockTimeout, c.bucketWidth, c.cancelInterval⟩

def validate (c : Config) : Except ConfigFault Unit := do
  let _ ← c.mode
  let _ ← c.settings

def defaultText : String :=
"# Skytrace database configuration
#
# Durability mode: \"standard\" (default) or \"always\"
#   \"standard\" = fsync every 100ms or 1000 writes, may lose the last batch on crash
#   \"always\"   = fsync every write
durability = \"standard\"

# Maximum wait (ms) for a contended index segment before a write or query
# fails with a retryable timeout.
lock_timeout_ms = 250

# Width (seconds) of one time-index segment.
time_bucket_secs = 3600

# Index entries scanned between cancellation checks on long queries.
cancel_check_interval = 1024
"

end Config
end FlightTrace
