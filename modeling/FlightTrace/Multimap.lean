import FlightTrace.OrderedMap
import FlightTrace.OrderedSet

/-! Maps from keys to sets of values. A key is there only while it has a value. -/
namespace FlightTrace

abbrev Multimap (κ α : Type) [Ord κ] [Ord α] := OrderedMap κ (OrderedSet α)

namespace Multimap

variable {κ α : Type} [Ord κ] [Ord α]

def values (m : Multimap κ α) (k : κ) : OrderedSet α := (m.get? k).getD ∅

def enter [Std.TransOrd κ] [Std.TransOrd α] (m : Multimap κ α) (k : κ) (a : α) : Multimap κ α :=
  OrderedMap.insert m k ((values m k).insert a)

def strike [Std.TransOrd κ] (m : Multimap κ α) (k : κ) (a : α) : Multimap κ α :=
  match m.get? k with
  | none => m
  | some s =>
    let s := s.erase a
    if s.isEmpty then OrderedMap.erase m k else OrderedMap.insert m k s

@[simp] theorem not_mem_values_empty {k : κ} {b : α} : b ∉ values (∅ : Multimap κ α) k :=
  OrderedSet.not_mem_empty

variable [DecidableEq κ] [Std.TransOrd κ] [Std.LawfulEqOrd κ] [Std.LawfulEqOrd α]
  {m : Multimap κ α} {k j : κ} {a b : α}

@[simp] theorem mem_values_enter [Std.TransOrd α] :
    b ∈ values (enter m k a) j ↔ (j = k ∧ b = a) ∨ b ∈ values m j := by
  unfold enter values
  rw [OrderedMap.get?_insert]
  by_cases h : j = k
  · subst h; simp
  · simp [h]

@[simp] theorem mem_values_strike :
    b ∈ values (strike m k a) j ↔ b ∈ values m j ∧ ¬(j = k ∧ b = a) := by
  unfold strike
  cases h : m.get? k with
  | none =>
    by_cases hj : j = k
    · subst hj; simp [values, h]
    · simp [hj]
  | some s =>
    by_cases hs : (s.erase a).isEmpty
    · simp only [hs, if_true]
      unfold values
      rw [OrderedMap.get?_erase]
      by_cases hj : j = k
      · subst hj
        have : ∀ b, b ∈ s → b = a := by
          intro b hb
          by_cases e : b = a
          · exact e
          · have hb : b ∈ s.erase a := OrderedSet.mem_erase.mpr ⟨e, hb⟩
            simp [OrderedSet.isEmpty, List.isEmpty_iff] at hs
            simp [OrderedSet.mem_iff_mem_toList, hs] at hb
        simp only [if_true, Option.getD_none, OrderedSet.not_mem_empty, h, Option.getD_some,
          true_and, false_iff]
        exact fun hb => hb.2 (this b hb.1)
      · simp [hj]
    · simp only [hs, Bool.false_eq_true, if_false]
      unfold values
      rw [OrderedMap.get?_insert]
      by_cases hj : j = k
      · subst hj; simp [h, and_comm]
      · simp [hj]

end Multimap
end FlightTrace
