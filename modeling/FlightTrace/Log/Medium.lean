/-! How the medium under a log answers: which part of a write lands, and whether syncing and resizing
succeed. One medium is good for one operation on the log. -/
namespace FlightTrace

structure Medium where
  /-- Whether bytes that were written stay in the file. -/
  keeps : Bool := true
  /-- For a file of some length and a number of bytes to be written, how many land before the write fails;
  nothing if it succeeds. -/
  landed? : Nat → Nat → Option Nat := fun _ _ => none
  syncs : Bool := true
  /-- Whether a file of the first length can be given the second. -/
  resizes : Nat → Nat → Bool := fun _ _ => true

namespace Medium

def sound : Medium := {}

/-- No file can be made to reach beyond a limit. -/
def limited (limit : Nat) : Medium where
  landed? length count := if length + count ≤ limit then none else some (limit - length)
  resizes old new := new ≤ limit || new ≤ old

/-- A device that forgets what is written to it. -/
def sink : Medium where
  keeps := false
  syncs := false
  resizes _ _ := false

/-- A device that takes nothing. -/
def full : Medium where
  keeps := false
  landed? _ _ := some 0
  syncs := false
  resizes _ _ := false

end Medium
end FlightTrace
