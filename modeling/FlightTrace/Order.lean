/-! Orders taken from a key, or from two keys one after the other. They tell apart exactly what
the keys tell apart. -/
namespace FlightTrace
namespace Order

variable {α β γ : Type} [Ord β] [Ord γ]

theorem lawfulEq_compareOn [Std.LawfulEqOrd β] {f : α → β}
    (inj : ∀ a b, f a = f b → a = b) : Std.LawfulEqCmp (compareOn f) where
  compare_self {a} := by
    simp [compareOn, Std.ReflCmp.compare_self]
  eq_of_compare h := inj _ _ (Std.LawfulEqOrd.eq_of_compare h)

theorem lawfulEq_compareLex [Std.LawfulEqOrd β] [Std.LawfulEqOrd γ] {f : α → β} {g : α → γ}
    (inj : ∀ a b, f a = f b → g a = g b → a = b) :
    Std.LawfulEqCmp (compareLex (compareOn f) (compareOn g)) where
  compare_self {a} := by
    simp [compareLex, compareOn, Std.ReflCmp.compare_self]
  eq_of_compare {a b} h := by
    have ⟨h₁, h₂⟩ := Ordering.then_eq_eq.mp h
    exact inj _ _ (Std.LawfulEqOrd.eq_of_compare h₁) (Std.LawfulEqOrd.eq_of_compare h₂)

end Order
end FlightTrace
