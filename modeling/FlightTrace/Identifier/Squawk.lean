import FlightTrace.Order
import FlightTrace.Text.Numeral

/-! Transponder codes: numbers of sixteen bits, written with at least four octal digits. Only codes
of four digits can be read from text, but a feed may deliver any number. -/
namespace FlightTrace

structure Squawk where
  val : Nat
  lt_bound : val < 65536
deriving DecidableEq

namespace Squawk

def ofNat? (n : Nat) : Option Squawk :=
  if h : n < 65536 then some ⟨n, h⟩ else none

def text (c : Squawk) : String := Text.padded 8 4 c.val

/-- Flight under visual rules. -/
def visual : Squawk := ⟨0o7000, by decide⟩

def hijack : Squawk := ⟨0o7500, by decide⟩

def radioFailure : Squawk := ⟨0o7600, by decide⟩

def emergency : Squawk := ⟨0o7700, by decide⟩

instance : Ord Squawk := ⟨compareOn val⟩

instance : Std.TransOrd Squawk := inferInstanceAs (Std.TransCmp (compareOn val))

instance : Std.LawfulEqOrd Squawk :=
  Order.lawfulEq_compareOn fun a b h => by cases a; cases b; simp_all

@[simp] theorem ofNat?_val (c : Squawk) : ofNat? c.val = some c := dif_pos c.lt_bound

end Squawk
end FlightTrace
