import FlightTrace.Identifier.RecordId
import FlightTrace.OrderedSet

/-! Which records can be seen. Numbers are reserved one after the other and may be finished in any
order; a record can be seen once all numbers up to its own are finished. -/
namespace FlightTrace

structure Watermark where
  /-- How many numbers are reserved. -/
  reserved : Nat
  /-- All numbers below this one are finished. -/
  visible : Nat
  /-- Finished numbers that wait for lower ones. -/
  pending : OrderedSet Nat

namespace Watermark

instance : EmptyCollection Watermark := ⟨⟨0, 0, ∅⟩⟩

def reserve? (w : Watermark) : Option (RecordId × Watermark) :=
  (RecordId.ofNat? w.reserved).map fun i => (i, { w with reserved := w.reserved + 1 })

/-- Moves a mark up over the numbers that stand in an ascending list, and leaves the others. -/
def advance : Nat → List Nat → Nat × List Nat
  | n, [] => (n, [])
  | n, i :: is =>
    if i = n then advance (n + 1) is
    else
      let (m, rest) := advance n is
      (m, i :: rest)

theorem advance_sublist (n : Nat) (is : List Nat) : ((advance n is).2).Sublist is := by
  induction is generalizing n with
  | nil => exact .slnil
  | cons i is ih =>
    unfold advance
    split
    · exact (ih _).cons _
    · exact (ih _).cons_cons _

def finish (w : Watermark) (i : Nat) : Watermark :=
  let pending := w.pending.insert i
  let moved := advance w.visible pending.toList
  { w with
    visible := moved.1
    pending := ⟨moved.2, pending.ascending.sublist (advance_sublist _ _)⟩ }

def isVisible (w : Watermark) (i : Nat) : Bool := i < w.visible

/-- How many numbers are reserved and not finished. -/
def inFlight (w : Watermark) : Nat := w.reserved - (w.visible + w.pending.size)

end Watermark
end FlightTrace
