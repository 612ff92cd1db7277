import FlightTrace.Config
import FlightTrace.Toml.Document

/-! The configuration as a TOML file. What the file leaves out has its usual value, and what it has
beyond that is passed over. -/
namespace FlightTrace
namespace Config

def line (name : String) (value : List Char) : List Char :=
  name.toList ++ ' ' :: '=' :: ' ' :: value ++ ['\n']

/-- A whole number that a file can hold. -/
def integerChars (n : Int) : Except SerializationFault (List Char) :=
  match Toml.Integer.ofInt? n with
  | some n => .ok (Text.integer n.val).toList
  | none => .error .config

def text (c : Config) : Except SerializationFault String := do
  let lockTimeout ← integerChars c.lockTimeout.val
  let bucketWidth ← integerChars c.bucketWidth.val
  let cancelInterval ← integerChars c.cancelInterval.val
  return String.ofList <|
    line "durability" (Toml.Quoted.write c.durability.toList) ++
      line "lock_timeout_ms" lockTimeout ++ line "time_bucket_secs" bucketWidth ++
      line "cancel_check_interval" cancelInterval

/-- The value of a setting, or the usual one where the file has none. -/
def setting {α : Type} (t : Toml.Fields) (name : String) (read : Toml.Item → Option α) (usual : α) :
    Option α :=
  match t.lookup name with
  | none => some usual
  | some i => read i

def string : Toml.Item → Option String
  | .value (.string s) => some s
  | _ => none

def integer : Toml.Item → Option Toml.Integer
  | .value (.integer n) => some n
  | _ => none

def natural : Toml.Item → Option { n : Nat // n < 0x10000000000000000 }
  | .value (.integer n) => if 0 ≤ n.val then some ⟨n.val.toNat, by omega⟩ else none
  | _ => none

def ofTable? (t : Toml.Fields) : Option Config := do
  return {
    durability := ← setting t "durability" string standard.durability
    lockTimeout := ← setting t "lock_timeout_ms" natural standard.lockTimeout
    bucketWidth := ← setting t "time_bucket_secs" integer standard.bucketWidth
    cancelInterval := ← setting t "cancel_check_interval" natural standard.cancelInterval }

def ofText? (s : String) : Option Config := (Toml.ofText? s).bind ofTable?

end Config
end FlightTrace
