import FlightTrace.Log.Frame

/-! What a log holds. Frames are read from the start; only the last may be damaged, because a write
was cut short: it runs past the end with no sound frame after its start, or it ends exactly at the end
and cannot be read. Any other damage is reported. -/
namespace FlightTrace
namespace Log

structure Replay where
  entries : List Entry
  /-- The length of the sound frames. -/
  soundLength : Nat
  /-- The length of the damaged end. -/
  tornLength : Nat
deriving DecidableEq

namespace Replay

/-- The first offset at which a sound frame starts. -/
def nextFrame? (offset : Nat) : List UInt8 → Option Nat
  | [] => none
  | b :: bs =>
    match Frame.decode (b :: bs) with
    | .ok (.whole _ _) => some offset
    | _ => nextFrame? (offset + 1) bs

def torn (offset : Nat) (bs : List UInt8) : Replay := ⟨[], offset, bs.length⟩

/-- Reads the frames of a log from an offset on. -/
def scan (offset : Nat) (bs : List UInt8) : Except CorruptionFault Replay :=
  if bs = [] then .ok (torn offset [])
  else
    match h : Frame.decode bs with
    | .ok (.whole e n) =>
      have := Frame.length_of_decode h
      (scan (offset + n) (bs.drop n)).map fun r => { r with entries := e :: r.entries }
    | .ok .incomplete =>
      match nextFrame? (offset + 1) bs.tail with
      | some next => .error (.overrun offset next)
      | none => .ok (torn offset bs)
    | .error f =>
      if Frame.declaredSize? bs = some bs.length then .ok (torn offset bs)
      else .error (.frame offset f)
termination_by bs.length
decreasing_by
  simp only [List.length_drop]
  omega

def ofBytes (bs : List UInt8) : Except CorruptionFault Replay := scan 0 bs

end Replay
end Log
end FlightTrace
