import FlightTrace.Config.Text
import FlightTrace.Database
import FlightTrace.Text.Utf8
import FlightTrace.Volume

/-! A host: files, a clock, and at most one database, which is open on one folder of the host. A lock file
keeps others away from the folder while the database is open. -/
namespace FlightTrace

structure Host where
  /-- The path of the folder with all files. -/
  root : String
  volume : Volume := {}
  /-- Whether somebody else has locked the folder of the database. -/
  lockedElsewhere : Bool := false
  /-- In milliseconds. -/
  now : Nat := 0
  database : Option Database := none
  /-- When the database was opened. -/
  opened : Nat := 0
  /-- The device that the log is on. -/
  device : Option Device := none
  /-- Whether the path of the log still leads to it. -/
  linked : Bool := false

namespace Host

def dataFolder : Path := ["data"]

def configName : String := "skytrace.toml"

def logFolderName : String := "wal"

def logName : String := "skytrace.wal"

def configFile : Path := dataFolder ++ [configName]

def lockFile : Path := dataFolder ++ [".lock"]

def logFolder : Path := dataFolder ++ [logFolderName]

def logFile : Path := logFolder ++ [logName]

def pathText (h : Host) (p : Path) : String := "/".intercalate (h.root :: p)

/-- The place of the log, as far as logs are concerned. -/
def site (h : Host) : Log.Site where
  node := h.volume.get? logFile
  log := h.database.bind (·.log)
  device := h.device
  linked := h.linked

def withSite (h : Host) (s : Log.Site) : Host :=
  { h with
    volume := h.volume.put logFile s.node
    database := h.database.map fun d => { d with log := s.log }
    device := s.device
    linked := s.linked }

/-- What can be done on a host. What was done before an error stays done. -/
abbrev Action := ExceptT Error (StateM Host)

def lift {α : Type} : Except Error α → Action α
  | .ok a => pure a
  | .error e => throw e

def liftConfig {α : Type} (r : Except ConfigFault α) : Action α := lift (r.mapError .invalidConfig)

def makeFolders (p : Path) : Action Unit := do
  match (← get).volume.makeFolders p with
  | some volume => modify fun h => { h with volume }
  | none => throw (.file .refused)

/-- Writes a file anew, and says whether all of it was written. -/
def writeFile (limit : Option Nat) (p : Path) (text : String) : Action Bool := do
  let (done, volume) := (← get).volume.write limit p (Text.utf8 text)
  modify fun h => { h with volume }
  return done

def readConfig (p : Path) : Action Config := do
  let h ← get
  let path := h.pathText p
  let some bs := (h.volume.get? p).bind (·.content?) | throw (.storage (.configUnread path))
  let some text := Text.ofUtf8? bs | throw (.storage (.configUnread path))
  let some config := Config.ofText? text | throw (.invalidConfig (.unparsed path))
  liftConfig config.validate
  return config

/-- Writes the usual configuration file if there is nothing at its path. -/
def writeDefaultConfig (limit : Option Nat) (p : Path) : Action Unit := do
  let h ← get
  if (h.volume.get? p).isNone then
    unless ← writeFile limit p Config.defaultText do
      throw (.storage (.defaultConfigUnwritten (h.pathText p)))

def writeConfig (limit : Option Nat) (p : Path) (config : Config) : Action Unit := do
  let text ← lift (config.text.mapError .serialization)
  unless ← writeFile limit p text do
    throw (.storage (.configUnwritten ((← get).pathText p)))

/-- Takes the lock of the folder, for as long as the database is open. -/
def lock : Action Unit := do
  let h ← get
  match h.volume.get? lockFile with
  | some (.file _) => pure ()
  | none => modify fun h => { h with volume := h.volume.put lockFile (some (.file [])) }
  | some _ => throw (.storage .lockUnopened)
  if h.lockedElsewhere then throw (.storage (.lockedElsewhere (h.pathText dataFolder)))

/-- Opens the database with a configuration, which is written to its file if it was not read from
there. If the database is open already it must have that configuration, and stays as it is. -/
def start (limit : Option Nat) (config : Config) (isNew : Bool) : Action Unit := do
  let mode ← liftConfig config.mode
  let settings ← liftConfig config.settings
  let folder := (← get).pathText dataFolder
  if let some d := (← get).database then
    if isNew ∧ d.config ≠ config then throw (.invalidConfig (.openOtherwise folder))
  else
    lock
    if isNew then writeConfig limit configFile config
    makeFolders logFolder
    let h ← get
    let some site := h.site.openWith mode h.now | throw (.file .refused)
    let some log := site.log | throw (.file .refused)
    let (r, log) := Database.recover folder config settings (.of limit site.device) log
    let site := site.settle log
    match r with
    | .ok d => set { h.withSite site with database := some d, opened := h.now }
    | .error e =>
      set (h.withSite (site.close limit h.now))
      throw e

/-- Closes the database. What waits to be written is written if it can be. -/
def close (limit : Option Nat) (h : Host) : Host :=
  { h.withSite (h.site.close limit h.now) with database := none }

def openStored (limit : Option Nat) : Action Unit := do
  makeFolders dataFolder
  writeDefaultConfig limit configFile
  start limit (← readConfig configFile) false

def openWith (limit : Option Nat) (config : Config) : Action Unit := do
  liftConfig config.validate
  makeFolders dataFolder
  start limit config true

def run {α : Type} (limit : Option Nat) (f : Medium → Nat → Database → α × Database) (h : Host) :
    Option (α × Host) :=
  h.database.map fun d =>
    let (a, d) := f (.of limit h.device) h.now d
    let h := { h with database := some d }
    (a, match d.log with
      | some l => h.withSite (h.site.settle l)
      | none => h)

/-- The times, in a span that starts now, at which the log is looked after in the background. -/
def wakings (h : Host) (interval milliseconds : Nat) : List Nat :=
  let step := max interval 1
  let passed := (h.now - h.opened) / step
  let due := (h.now + milliseconds - h.opened) / step
  (List.range (due - passed)).map fun k => h.opened + (passed + k + 1) * step

def syncAt (limit : Option Nat) (h : Host) (t : Nat) : Host :=
  match { h with now := t }.run limit fun m now d => ((), d.syncIfOverdue m now) with
  | some (_, h) => h
  | none => h

/-- Lets time pass. A log whose entries may wait is looked after meanwhile. -/
def sleep (limit : Option Nat) (milliseconds : Nat) (h : Host) : Host :=
  let times := match h.database.bind (·.log) with
    | some l =>
      match l.durability with
      | .batched interval _ => h.wakings interval milliseconds
      | .strict => []
    | none => []
  { times.foldl (syncAt limit) h with now := h.now + milliseconds }

def editLog (f : Log.Site → Option Log.Site) (h : Host) : Option Host := (f h.site).map h.withSite

end Host
end FlightTrace
