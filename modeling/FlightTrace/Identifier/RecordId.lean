import FlightTrace.Order
import FlightTrace.Text.Numeral

/-! Record numbers: sixty-four bits, given out once each in the order in which records arrive. -/
namespace FlightTrace

structure RecordId where
  val : Nat
  lt_size : val < UInt64.size
deriving DecidableEq

namespace RecordId

def ofNat? (n : Nat) : Option RecordId :=
  if h : n < UInt64.size then some ⟨n, h⟩ else none

def min : RecordId := ⟨0, by decide⟩

def max : RecordId := ⟨UInt64.size - 1, by decide⟩

def text (i : RecordId) : String := "#" ++ Text.decimal i.val

instance : Inhabited RecordId := ⟨min⟩

instance : Ord RecordId := ⟨compareOn val⟩

instance : Std.TransOrd RecordId := inferInstanceAs (Std.TransCmp (compareOn val))

theorem eq_of_val_eq {i j : RecordId} (h : i.val = j.val) : i = j := by
  cases i
  cases j
  simpa using h

instance : Std.LawfulEqOrd RecordId := Order.lawfulEq_compareOn fun _ _ h => eq_of_val_eq h

@[simp] theorem ofNat?_val (i : RecordId) : ofNat? i.val = some i := dif_pos i.lt_size

end RecordId
end FlightTrace
