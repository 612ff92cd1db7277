import FlightTrace.Host
import FlightTrace.Text.Quoted

/-! Logs and databases in words, for people who look for faults. -/
namespace FlightTrace

def Durability.description : Durability → String
  | .strict => "Strict"
  | .batched interval batch =>
    s!"Batched \x7b interval_ms: {Text.decimal interval}, batch_size: {Text.decimal batch} \x7d"

namespace Log

def description (path : String) (d : Durability) : String :=
  s!"Wal \x7b path: {Text.quote path}, durability_mode: {d.description} \x7d"

end Log

def Config.description (c : Config) : String :=
  s!"SkytraceConfig \x7b durability: {Text.quote c.durability}, lock_timeout_ms: {Text.decimal c.lockTimeout.val}, time_bucket_secs: {Text.integer c.bucketWidth.val}, cancel_check_interval: {Text.decimal c.cancelInterval.val} \x7d"

namespace Database

def description (d : Database) : String :=
  let accepting := if d.accepting then "true" else "false"
  s!"Database \x7b data_dir: {Text.quote d.folder}, config: {d.config.description}, open: {accepting} \x7d"

end Database
end FlightTrace
