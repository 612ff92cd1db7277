import Mathlib
import FlightTrace.Calendar

/-! Every day has exactly one date. The date of a day exists, and counting the days up to it gives the
day again. -/
namespace FlightTrace
namespace Calendar

theorem daysBeforeYear_succ (y : Int) :
    daysBeforeYear (y + 1) = daysBeforeYear y + if isLeap y then 366 else 365 := by
  by_cases h₄ : y % 4 = 0 <;> by_cases h₁₀₀ : y % 100 = 0 <;> by_cases h₄₀₀ : y % 400 = 0 <;>
    simp [isLeap, daysBeforeYear, h₄, h₁₀₀, h₄₀₀] <;> omega

theorem daysBeforeYear_mono {y z : Int} (h : y ≤ z) : daysBeforeYear y ≤ daysBeforeYear z := by
  have h₄ : (y - 1) / 4 ≤ (z - 1) / 4 := Int.ediv_le_ediv (by decide) (by omega)
  have h₄₀₀ : (y - 1) / 400 ≤ (z - 1) / 400 := Int.ediv_le_ediv (by decide) (by omega)
  have h₁₀₀ : (z - 1) / 100 - (y - 1) / 100 ≤ z - y := by omega
  simp only [daysBeforeYear]
  omega

theorem total_monthLengths (y : Int) :
    (monthLengths y).foldr (· + ·) 0 = if isLeap y then 366 else 365 := by
  by_cases h : isLeap y <;> simp [monthLengths, h]

theorem getD_monthLengths_le (y : Int) (k : Nat) : (monthLengths y).getD k 0 ≤ 31 := by
  have h : ∀ l ∈ monthLengths y, l ≤ 31 := by
    by_cases hy : isLeap y <;> simp [monthLengths, hy]
  rw [List.getD_eq_getElem?_getD]
  cases hk : (monthLengths y)[k]? with
  | none => exact Nat.zero_le 31
  | some l => exact h l (List.mem_of_getElem? hk)

/-- A day of the year falls into one of the months that are left, after all earlier ones. -/
theorem monthOf_spec (month : Nat) {ls : List Nat} {n : Nat} (h : n < ls.foldr (· + ·) 0) :
    ∃ k d, monthOf month ls n = (month + k, d) ∧ k < ls.length ∧ 1 ≤ d ∧ d ≤ ls.getD k 0 ∧
      (ls.take k).foldr (· + ·) 0 + (d - 1) = n := by
  induction ls generalizing month n with
  | nil => simp at h
  | cons l ls ih =>
    unfold monthOf
    by_cases hl : n < l
    · exact ⟨0, n + 1, by simp [hl], by simp, by omega, by simp; omega, by simp⟩
    · have hn : n - l < ls.foldr (· + ·) 0 := by
        simp only [List.foldr_cons] at h
        omega
      obtain ⟨k, d, e, hk, h₁, h₂, h₃⟩ := ih (month + 1) hn
      refine ⟨k + 1, d, ?_, by simpa using hk, h₁, by simpa using h₂, ?_⟩
      · simp only [hl, if_false, e, Prod.mk.injEq, and_true]
        omega
      · simp only [List.take_succ_cons, List.foldr_cons]
        omega

theorem exists_ofDayNumber (n : Int) : Exists (ofDayNumber n) ∧ (ofDayNumber n).month ≤ 12 ∧
    (ofDayNumber n).day ≤ 31 ∧ dayNumber (ofDayNumber n) = n := by
  obtain ⟨h₁, h₂⟩ := daysBeforeYear_yearOf (n + epoch)
  generalize hy : yearOf (n + epoch) = y at h₁ h₂
  have hk : (n + epoch - daysBeforeYear y).toNat < (monthLengths y).foldr (· + ·) 0 := by
    rw [daysBeforeYear_succ] at h₂
    rw [total_monthLengths]
    split <;> simp_all <;> omega
  obtain ⟨k, d, e, hk, h₁', h₂', h₃⟩ := monthOf_spec 1 hk
  have ho : ofDayNumber n = ⟨y, 1 + k, d⟩ := by simp [ofDayNumber, hy, e]
  have hlength : (monthLengths y).length = 12 := rfl
  have hmax := getD_monthLengths_le y k
  rw [ho]
  have hmonth : 1 + k ≤ 12 := by omega
  refine ⟨⟨Nat.le_add_right 1 k, h₁', by simpa using h₂'⟩, hmonth, Nat.le_trans h₂' hmax, ?_⟩
  simp only [dayNumber, daysBeforeMonth, Nat.add_sub_cancel_left]
  omega

/-- The days of the instants fall into the years of the calendar that are kept. -/
theorem year_ofDayNumber {n : Int} (h₁ : -96465292 ≤ n) (h₂ : n ≤ 95026236) :
    -262143 ≤ (ofDayNumber n).year ∧ (ofDayNumber n).year ≤ 262142 := by
  obtain ⟨h₃, h₄⟩ := daysBeforeYear_yearOf (n + epoch)
  have e : (ofDayNumber n).year = yearOf (n + epoch) := rfl
  have first : daysBeforeYear (-262143) = -95746130 := by decide
  have last : daysBeforeYear 262143 = 95745399 := by decide
  rw [e]
  simp only [epoch] at h₃ h₄ ⊢
  constructor
  · refine Int.not_lt.mp fun h => ?_
    have := daysBeforeYear_mono (show yearOf (n + 719162) + 1 ≤ -262143 by omega)
    omega
  · refine Int.not_lt.mp fun h => ?_
    have := daysBeforeYear_mono (show 262143 ≤ yearOf (n + 719162) by omega)
    omega

end Calendar
end FlightTrace
