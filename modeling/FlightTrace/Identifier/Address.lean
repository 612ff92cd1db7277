import FlightTrace.Order
import FlightTrace.Text.Numeral

/-! Aircraft addresses: numbers of 24 bits, written with six hexadecimal digits. -/
namespace FlightTrace

structure Address where
  val : Nat
  le_max : val ≤ 0xffffff
deriving DecidableEq

namespace Address

def max : Nat := 0xffffff

def ofNat? (n : Nat) : Option Address :=
  if h : n ≤ max then some ⟨n, h⟩ else none

def text (a : Address) : String := Text.padded 16 6 a.val

instance : Ord Address := ⟨compareOn val⟩

instance : Std.TransOrd Address := inferInstanceAs (Std.TransCmp (compareOn val))

instance : Std.LawfulEqOrd Address :=
  Order.lawfulEq_compareOn fun a b h => by cases a; cases b; simp_all

@[simp] theorem ofNat?_val (a : Address) : ofNat? a.val = some a := by
  simp [ofNat?, max, a.le_max]

end Address
end FlightTrace
