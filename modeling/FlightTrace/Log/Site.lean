import FlightTrace.Log

/-! Logs and their files. The file of a log can be changed or removed while the log is open. The log
goes on with the file that it was opened on, and finds what is at its path only when it reads
everything again. -/
namespace FlightTrace

inductive Device where
  /-- Forgets what is written to it. -/
  | sink
  /-- Takes nothing. -/
  | full
deriving DecidableEq

inductive Node where
  | folder
  | file (bytes : List UInt8)
  | device (d : Device)
deriving DecidableEq

namespace Node

def content? : Node → Option (List UInt8)
  | folder => none
  | file bs => some bs
  | device _ => some []

def device? : Node → Option Device
  | device d => some d
  | _ => none

end Node

/-- How files, or a device, answer. Files may have a greatest length; devices have none. -/
def Medium.of (limit : Option Nat) : Option Device → Medium
  | some .sink => sink
  | some .full => full
  | none =>
    match limit with
    | some n => limited n
    | none => sound

namespace Log

/-- A path, and a log that may be open there. -/
structure Site where
  node : Option Node := none
  log : Option Log := none
  /-- The device that the open log is on. -/
  device : Option Device := none
  /-- Whether the path still leads to what the log is open on. -/
  linked : Bool := false

namespace Site

/-- Puts the file of the open log where its path leads. -/
def settle (s : Site) (l : Log) : Site :=
  if s.linked ∧ s.device = none then { s with log := some l, node := some (.file l.file) }
  else { s with log := some l }

def close (limit : Option Nat) (now : Nat) (s : Site) : Site :=
  match s.log with
  | none => s
  | some l =>
    let bs := l.close (.of limit s.device) now
    { s.settle { l with file := bs } with log := none, device := none, linked := false }

/-- Opens a log at the path. A file is made if need be; a folder cannot be opened. -/
def openWith (durability : Durability) (now : Nat) (s : Site) : Option Site :=
  let node := s.node.getD (.file [])
  node.content?.map fun bs =>
    { node := some node
      log := some (.ofFile durability bs now)
      device := node.device?
      linked := true }

/-- What the open log finds when it reads its path. -/
def found (s : Site) (l : Log) : Option (List UInt8) :=
  if s.linked then some l.file else s.node.bind (·.content?)

def run {α : Type} (limit : Option Nat) (f : Medium → Log → α × Log) (s : Site) :
    Option (α × Site) :=
  s.log.map fun l =>
    let (a, l) := f (.of limit s.device) l
    (a, s.settle l)

def replay (limit : Option Nat) (s : Site) : Option (Except Error Replay × Site) :=
  s.run limit fun m l => l.replayFrom m s.found

def length? (s : Site) : Option Nat := (s.node.bind (·.content?)).map (·.length)

/-- Gives the file at the path other content, unless it is a device. A file that is missing is made. -/
def setContent (bs : List UInt8) (s : Site) : Site :=
  match s.node with
  | some (.device _) => s
  | _ =>
    { s with
      node := some (.file bs)
      log := if s.linked then s.log.map fun l => { l with file := bs } else s.log }

def edit (f : List UInt8 → List UInt8) (s : Site) : Option Site :=
  (s.node.bind (·.content?)).map fun bs => s.setContent (f bs)

/-- Gives the file at the path other content. A folder has none. -/
def write? (bs : List UInt8) (s : Site) : Option Site :=
  if s.node = some .folder then none else some (s.setContent bs)

def replace (node : Option Node) (s : Site) : Site := { s with node, linked := false }

def remove? (s : Site) : Option Site := (s.node.bind (·.content?)).map fun _ => s.replace none

end Site
end Log
end FlightTrace
