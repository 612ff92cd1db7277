/-! The Gregorian calendar, carried on before its start and before the year one. Days are counted
from the first of January 1970. -/
namespace FlightTrace

structure Date where
  year : Int
  month : Nat
  day : Nat
deriving DecidableEq

namespace Calendar

def isLeap (y : Int) : Bool := y % 4 = 0 && (y % 100 != 0 || y % 400 = 0)

/-- Days from the start of the year one to the start of a year. -/
def daysBeforeYear (y : Int) : Int :=
  365 * (y - 1) + (y - 1) / 4 - (y - 1) / 100 + (y - 1) / 400

def monthLengths (y : Int) : List Nat :=
  [31, if isLeap y then 29 else 28, 31, 30, 31, 30, 31, 31, 30, 31, 30, 31]

/-- Days from the start of the year one to the start of the year 1970. -/
def epoch : Int := 719162

/-- Days from the start of a year to the start of a month. -/
def daysBeforeMonth (y : Int) (m : Nat) : Nat :=
  ((monthLengths y).take (m - 1)).foldr (· + ·) 0

def dayNumber (d : Date) : Int :=
  daysBeforeYear d.year + daysBeforeMonth d.year d.month + (d.day - 1) - epoch

def Exists (d : Date) : Prop :=
  1 ≤ d.month ∧ 1 ≤ d.day ∧ d.day ≤ (monthLengths d.year).getD (d.month - 1) 0

instance (d : Date) : Decidable (Exists d) := inferInstanceAs (Decidable (_ ∧ _))

/-- The year of a day, counted from the start of the year one. Years of average length give it up to
one year. -/
def yearOf (n : Int) : Int :=
  let y := 400 * n / 146097 + 1
  if daysBeforeYear (y + 1) ≤ n then y + 1 else y

/-- The month and day of a day of the year, given the lengths of the months that are left. -/
def monthOf (month : Nat) : List Nat → Nat → Nat × Nat
  | [], n => (month, n + 1)
  | l :: ls, n => if n < l then (month, n + 1) else monthOf (month + 1) ls (n - l)

def ofDayNumber (n : Int) : Date :=
  let y := yearOf (n + epoch)
  let (m, d) := monthOf 1 (monthLengths y) (n + epoch - daysBeforeYear y).toNat
  ⟨y, m, d⟩

/-- Four hundred years have 146097 days, so an estimate by the average is never late. -/
theorem daysBeforeYear_average_le (n : Int) : daysBeforeYear (400 * n / 146097 + 1) ≤ n := by
  generalize hb : 400 * n / 146097 = b
  have h : 146097 * b ≤ 400 * n := by omega
  obtain ⟨q, r, rfl, h₁, h₂⟩ : ∃ q r : Int, b = 400 * q + r ∧ 0 ≤ r ∧ r < 400 :=
    ⟨b / 400, b % 400, by omega, by omega, by omega⟩
  have e₁ : (400 * q + r + 1 - 1) / 4 = 100 * q + r / 4 := by omega
  have e₂ : (400 * q + r + 1 - 1) / 100 = 4 * q + r / 100 := by omega
  have e₃ : (400 * q + r + 1 - 1) / 400 = q := by omega
  simp only [daysBeforeYear, e₁, e₂, e₃]
  omega

theorem lt_daysBeforeYear_average (n : Int) : n < daysBeforeYear (400 * n / 146097 + 3) := by
  generalize hb : 400 * n / 146097 = b
  have h : 400 * n < 146097 * (b + 1) := by omega
  simp only [daysBeforeYear]
  omega

theorem daysBeforeYear_yearOf (n : Int) :
    daysBeforeYear (yearOf n) ≤ n ∧ n < daysBeforeYear (yearOf n + 1) := by
  have h₁ := daysBeforeYear_average_le n
  have h₂ := lt_daysBeforeYear_average n
  unfold yearOf
  by_cases h : daysBeforeYear (400 * n / 146097 + 1 + 1) ≤ n
  · simp only [h, if_true, true_and]
    rwa [show 400 * n / 146097 + 1 + 1 + 1 = 400 * n / 146097 + 3 by omega]
  · simp only [h, if_false]
    exact ⟨h₁, by omega⟩

end Calendar
end FlightTrace
