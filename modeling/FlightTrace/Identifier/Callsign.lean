import FlightTrace.Order
import FlightTrace.Text.Blank

/-! Callsigns: text without blanks at its ends, and never empty. A flight that sends no callsign
has none, so there is nothing that blank text could find. -/
namespace FlightTrace

structure Callsign where
  text : String
  trimmed : Text.trim text = text
  ne_empty : text ≠ ""
deriving DecidableEq

namespace Callsign

/-- The text without the blanks at its ends, if anything is left. -/
def ofText? (s : String) : Option Callsign :=
  if h : Text.trim s = "" then none else some ⟨Text.trim s, Text.trim_trim s, h⟩

instance : Ord Callsign := ⟨compareOn text⟩

instance : Std.TransOrd Callsign := inferInstanceAs (Std.TransCmp (compareOn text))

instance : Std.LawfulEqOrd Callsign :=
  Order.lawfulEq_compareOn fun a b h => by cases a; cases b; simp_all

@[simp] theorem ofText?_text (c : Callsign) : ofText? c.text = some c := by
  simp [ofText?, c.trimmed, c.ne_empty]

end Callsign
end FlightTrace
