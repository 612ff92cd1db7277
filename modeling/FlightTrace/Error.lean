import FlightTrace.RecordFault
import FlightTrace.Text.Duration

/-! Everything that can go wrong, by kind and cause, and how it is worded. Only waiting for a
bucket is worth another try; faults of storage, of files and of stored data come from the medium. -/
namespace FlightTrace

inductive StorageFault where
  | unwritten (offset : Nat)
  | unsynced
  | unusable
  | closed
  | lockUnopened
  | lockedElsewhere (folder : String)
  | configUnread (path : String)
  | configUnwritten (path : String)
  | defaultConfigUnwritten (path : String)
  | idsUsedUp
  | stated (text : String)
deriving DecidableEq

def StorageFault.message : StorageFault → String
  | unwritten n => s!"failed to write WAL at offset {Text.decimal n}"
  | unsynced => "failed to fsync WAL"
  | unusable => "WAL is unusable after a failed append could not be undone"
  | closed => "database is closed"
  | lockUnopened => "failed to open lock file"
  | lockedElsewhere d => s!"database at '{d}' is already in use by another process"
  | configUnread p => s!"failed to read config file '{p}'"
  | configUnwritten p => s!"failed to write config file '{p}'"
  | defaultConfigUnwritten p => s!"failed to write default config file '{p}'"
  | idsUsedUp => "record ids are used up"
  | stated s => s

inductive FileFault where
  | refused
  | stated (text : String)
deriving DecidableEq

def FileFault.message : FileFault → String
  | refused => "file operation refused"
  | stated s => s

inductive FrameFault where
  | short (length : Nat)
  | long (length : Nat)
  | checksum (stored computed : Nat)
  | undecodable
  | wrongTag (tag : Nat)
deriving DecidableEq

def FrameFault.message : FrameFault → String
  | short n => s!"invalid frame length {Text.decimal n}"
  | long n => s!"frame length {Text.decimal n} exceeds maximum 67108864"
  | checksum a b => s!"CRC mismatch: expected {Text.padded 16 8 a}, got {Text.padded 16 8 b}"
  | undecodable => "undecodable payload"
  | wrongTag t => s!"type tag {Text.decimal t} does not match payload"

inductive CorruptionFault where
  | frame (offset : Nat) (fault : FrameFault)
  | overrun (offset next : Nat)
  | document (key : String)
  | stated (text : String)
deriving DecidableEq

def CorruptionFault.message : CorruptionFault → String
  | frame n f => s!"offset {Text.decimal n}: {f.message}"
  | overrun n m =>
    s!"offset {Text.decimal n}: frame length runs past end of file but a valid frame follows at offset {Text.decimal m}"
  | document k => s!"metadata '{k}' holds invalid JSON"
  | stated s => s

inductive SerializationFault where
  | record (fault : RecordFault)
  | malformed
  | oversized (length : Nat)
  | config
  | stated (text : String)
deriving DecidableEq

def SerializationFault.message : SerializationFault → String
  | record f => s!"Invalid record: {f.message}"
  | malformed => "malformed document"
  | oversized n => s!"WAL entry too large: {Text.decimal n} bytes (max 67108864)"
  | config => "failed to serialize config"
  | stated s => s

inductive MissingValue where
  | metadata (key : String)
  | stated (text : String)
deriving DecidableEq

def MissingValue.message : MissingValue → String
  | metadata k => s!"metadata key '{k}'"
  | stated s => s

inductive ConfigFault where
  | durability (text : String)
  | lockTimeout
  | bucketWidth (seconds : Int)
  | cancelInterval
  | unparsed (path : String)
  | openOtherwise (folder : String)
  | stated (text : String)
deriving DecidableEq

def ConfigFault.message : ConfigFault → String
  | durability s =>
    s!"invalid durability mode '{s}' in skytrace.toml. Expected \"standard\" or \"always\"."
  | lockTimeout => "lock_timeout_ms must be greater than zero"
  | bucketWidth n => s!"time_bucket_secs must be positive, got {Text.integer n}"
  | cancelInterval => "cancel_check_interval must be greater than zero"
  | unparsed p => s!"failed to parse config file '{p}'"
  | openOtherwise d => s!"database at '{d}' is already open with a different configuration"
  | stated s => s

inductive Error where
  | storage (fault : StorageFault)
  | file (fault : FileFault)
  | corruption (fault : CorruptionFault)
  | serialization (fault : SerializationFault)
  | notFound (what : MissingValue)
  | duplicateTag (address : Address) (tag : String)
  | invalidRecord (fault : RecordFault)
  | timeout (resource : String) (milliseconds : Nat)
  | cancelled
  | invalidConfig (fault : ConfigFault)
deriving DecidableEq

namespace Error

def message : Error → String
  | storage f => s!"Storage failure: {f.message}"
  | file f => s!"I/O error: {f.message}"
  | corruption f => s!"Data corruption: {f.message}"
  | serialization f => s!"Serialization error: {f.message}"
  | notFound m => s!"Not found: {m.message}"
  | duplicateTag a tag => s!"Tag '{tag}' already present on {a.text}"
  | invalidRecord f => s!"Invalid record: {f.message}"
  | timeout r n => s!"Timed out after {Text.duration n} waiting for {r}"
  | cancelled => "Operation cancelled"
  | invalidConfig f => s!"Invalid configuration: {f.message}"

def isRetryable : Error → Bool
  | timeout _ _ => true
  | _ => false

def isStorageFailure : Error → Bool
  | storage _ | file _ | corruption _ => true
  | _ => false

end Error
end FlightTrace
