import FlightTrace.Calendar
import FlightTrace.Order

/-! Instants of universal time, to the nanosecond, in the years −262143 to 262142. The last second of
a minute may be a leap second: it shares its number with the second before it and has a thousand
million nanoseconds more. -/
namespace FlightTrace

structure Instant where
  second : Int
  nano : Nat
  in_range : -8334601228800 ≤ second ∧ second ≤ 8210266876799
  nano_lt : nano < 1000000000 ∨ nano < 2000000000 ∧ second % 60 = 59
deriving DecidableEq

namespace Instant

def first : Int := -8334601228800

def last : Int := 8210266876799

def ofParts? (second : Int) (nano : Nat) : Option Instant :=
  if h : (-8334601228800 ≤ second ∧ second ≤ 8210266876799) ∧
      (nano < 1000000000 ∨ nano < 2000000000 ∧ second % 60 = 59) then
    some ⟨second, nano, h.1, h.2⟩
  else none

instance : Ord Instant := ⟨compareLex (compareOn second) (compareOn nano)⟩

instance : Std.TransOrd Instant :=
  inferInstanceAs (Std.TransCmp (compareLex (compareOn second) (compareOn nano)))

instance : Std.LawfulEqOrd Instant :=
  Order.lawfulEq_compareLex fun a b h₁ h₂ => by cases a; cases b; simp_all

instance : LT Instant := ltOfOrd

instance : LE Instant := leOfOrd

instance : Inhabited Instant := ⟨⟨0, 0, by decide, by decide⟩⟩

theorem lt_iff_compare {a b : Instant} : a < b ↔ compare a b = .lt := Iff.rfl

theorem le_iff_compare {a b : Instant} : a ≤ b ↔ (compare a b).isLE := Iff.rfl

/-- One millisecond later, unless that is past the last instant. A sum that stays inside a leap
second keeps its number; one that leaves it starts from the second before. -/
def plusMilli? (t : Instant) : Option Instant :=
  let n := t.nano + 1000000
  if 1000000000 ≤ t.nano ∧ n < 2000000000 then ofParts? t.second n
  else
    let m := if 1000000000 ≤ t.nano then n - 1000000000 else n
    if m < 1000000000 then ofParts? t.second m else ofParts? (t.second + 1) (m - 1000000000)

theorem ofParts?_second_nano (t : Instant) : ofParts? t.second t.nano = some t := by
  simp [ofParts?, t.in_range, t.nano_lt]

end Instant
end FlightTrace
