import FlightTrace.Log.Medium
import FlightTrace.Log.Replay

/-! The log: a file of whole frames, and frames that wait to be written to it. An entry whose append
fails is taken out again, both from the file and from those that wait; if that fails too the log
takes no more entries. -/
namespace FlightTrace

/-- When entries are made durable. -/
inductive Durability where
  /-- Each at once. -/
  | strict
  /-- After so many milliseconds, or so many entries. -/
  | batched (interval batch : Nat)
deriving DecidableEq

structure Log where
  durability : Durability
  file : List UInt8
  pending : List UInt8
  /-- How much of the file holds whole frames. -/
  written : Nat
  /-- How many entries were appended since the last sync. -/
  unsynced : Nat
  /-- The time of the last sync, in milliseconds. -/
  lastSync : Nat
  poisoned : Bool
deriving DecidableEq

namespace Log

/-- So many bytes may wait. -/
def pendingLimit : Nat := 65536

/-- A log on a file that may have content. -/
def ofFile (durability : Durability) (file : List UInt8) (now : Nat) : Log :=
  ⟨durability, file, [], file.length, 0, now, false⟩

def size (l : Log) : Nat := l.written + l.pending.length

def resize (bs : List UInt8) (n : Nat) : List UInt8 :=
  bs.take n ++ List.replicate (n - bs.length) 0

/-- Cuts the file back. A log whose file cannot be cut is unusable. -/
def cut (m : Medium) (n : Nat) (l : Log) : Log :=
  if m.resizes l.file.length n then { l with file := resize l.file n } else { l with poisoned := true }

/-- Writes the waiting frames. If that fails they go on waiting, and nothing of them stays in the file. -/
def writePending (m : Medium) (l : Log) : Except StorageFault Unit × Log :=
  if l.pending = [] then (.ok (), l)
  else
    let grow := fun n => if m.keeps then l.file ++ l.pending.take n else l.file
    match m.landed? l.file.length l.pending.length with
    | some n => (.error (.unwritten l.written), { l with file := grow n }.cut m l.written)
    | none =>
      let file := grow l.pending.length
      (.ok (), { l with file, pending := [], written := l.written + l.pending.length })

def sync (m : Medium) (now : Nat) (l : Log) : Except StorageFault Unit × Log :=
  match l.writePending m with
  | (.error f, l) => (.error f, l)
  | (.ok (), l) =>
    if m.syncs then (.ok (), { l with unsynced := 0, lastSync := now }) else (.error .unsynced, l)

/-- Takes out the frame that starts at an offset. -/
def rollback (m : Medium) (start : Nat) (l : Log) : Log :=
  let l :=
    if start < l.written then { l.cut m start with written := start }
    else { l with pending := l.pending.take (start - l.written) }
  { l with unsynced := l.unsynced - 1 }

/-- What an append does once its frame waits. -/
def settle (m : Medium) (now : Nat) (l : Log) : Except StorageFault Unit × Log :=
  match l.durability with
  | .strict => l.sync m now
  | .batched interval batch =>
    if interval ≤ now - l.lastSync ∨ batch ≤ l.unsynced then l.sync m now
    else if pendingLimit ≤ l.pending.length then l.writePending m
    else (.ok (), l)

/-- Appends an entry and gives the offset of its frame. -/
def append (m : Medium) (now : Nat) (e : Entry) (l : Log) : Except Error Nat × Log :=
  match Frame.encode e with
  | .error f => (.error (.serialization f), l)
  | .ok frame =>
    if l.poisoned then (.error (.storage .unusable), l)
    else
      let start := l.size
      match { l with pending := l.pending ++ frame, unsynced := l.unsynced + 1 }.settle m now with
      | (.ok (), l) => (.ok start, l)
      | (.error f, l) => (.error (.storage f), l.rollback m start)

def flush (m : Medium) (l : Log) : Except Error Unit × Log :=
  match l.writePending m with
  | (.ok (), l) => (.ok (), l)
  | (.error f, l) => (.error (.storage f), l)

def fsync (m : Medium) (now : Nat) (l : Log) : Except Error Unit × Log :=
  match l.sync m now with
  | (.ok (), l) => (.ok (), l)
  | (.error f, l) => (.error (.storage f), l)

/-- Syncs a batched log whose entries have waited for its interval, and says whether it did. -/
def syncIfOverdue (m : Medium) (now : Nat) (l : Log) : Except Error Bool × Log :=
  match l.durability with
  | .strict => (.ok false, l)
  | .batched interval _ =>
    if l.unsynced = 0 ∨ now - l.lastSync < interval then (.ok false, l)
    else
      match l.fsync m now with
      | (.ok (), l) => (.ok true, l)
      | (.error e, l) => (.error e, l)

/-- Reads what a file holds, once the waiting frames are written. The file is the log's own unless another
has taken its place, and may be missing then. -/
def replayFrom (m : Medium) (found : Log → Option (List UInt8)) (l : Log) :
    Except Error Replay × Log :=
  match l.flush m with
  | (.error e, l) => (.error e, l)
  | (.ok (), l) =>
    match found l with
    | none => (.error (.file .refused), l)
    | some bs =>
      match Replay.ofBytes bs with
      | .ok r => (.ok r, l)
      | .error f => (.error (.corruption f), l)

def replay (m : Medium) (l : Log) : Except Error Replay × Log := l.replayFrom m fun l => some l.file

/-- Gives the file a length, and syncs it. -/
def truncate (m : Medium) (n : Nat) (l : Log) : Except Error Unit × Log :=
  match l.flush m with
  | (.error e, l) => (.error e, l)
  | (.ok (), l) =>
    if m.resizes l.file.length n then
      let l := { l with file := resize l.file n }
      if m.syncs then (.ok (), { l with written := n }) else (.error (.file .refused), l)
    else (.error (.file .refused), l)

/-- The file that is left when the log is closed. A last sync may fail unnoticed. -/
def close (m : Medium) (now : Nat) (l : Log) : List UInt8 := (l.sync m now).2.file

end Log
end FlightTrace
