/-! Finite sets kept as strictly ascending lists. Two sets with the same members are the same
value, so equal contents reached by different histories cannot be told apart. -/
namespace FlightTrace

structure OrderedSet (α : Type) [Ord α] where
  toList : List α
  ascending : toList.Pairwise fun a b => compare a b = .lt

namespace OrderedSet

variable {α : Type} [Ord α]

instance [DecidableEq α] : DecidableEq (OrderedSet α) := fun s t =>
  decidable_of_iff (s.toList = t.toList) (by cases s; cases t; simp)

instance : EmptyCollection (OrderedSet α) := ⟨⟨[], .nil⟩⟩

instance : Inhabited (OrderedSet α) := ⟨∅⟩

instance : Membership α (OrderedSet α) := ⟨fun s a => a ∈ s.toList⟩

def isEmpty (s : OrderedSet α) : Bool := s.toList.isEmpty

def size (s : OrderedSet α) : Nat := s.toList.length

def contains (s : OrderedSet α) (a : α) : Bool := s.toList.any fun b => compare a b == .eq

/-- Puts a value in front of the first greater one, unless it is there. -/
def insertList (a : α) : List α → List α
  | [] => [a]
  | b :: bs =>
    match compare a b with
    | .lt => a :: b :: bs
    | .eq => b :: bs
    | .gt => b :: insertList a bs

theorem mem_of_mem_insertList {a b : α} {l : List α} (h : b ∈ insertList a l) :
    b = a ∨ b ∈ l := by
  induction l with
  | nil => simpa [insertList] using h
  | cons c cs ih =>
    unfold insertList at h
    split at h
    · simpa using h
    · exact Or.inr h
    · rcases List.mem_cons.mp h with h | h
      · simp [h]
      · rcases ih h with h | h <;> simp [h]

theorem pairwise_insertList [Std.TransOrd α] (a : α) {l : List α}
    (h : l.Pairwise fun a b => compare a b = .lt) :
    (insertList a l).Pairwise fun a b => compare a b = .lt := by
  induction l with
  | nil => simp [insertList]
  | cons b bs ih =>
    have ⟨hb, hbs⟩ := List.pairwise_cons.mp h
    unfold insertList
    split
    · rename_i e
      refine List.pairwise_cons.mpr ⟨fun c hc => ?_, h⟩
      rcases List.mem_cons.mp hc with hc | hc
      · simpa [hc] using e
      · exact Std.TransCmp.lt_trans e (hb c hc)
    · exact h
    · rename_i e
      refine List.pairwise_cons.mpr ⟨fun c hc => ?_, ih hbs⟩
      rcases mem_of_mem_insertList hc with hc | hc
      · simpa [hc] using Std.OrientedCmp.lt_of_gt e
      · exact hb c hc

def insert [Std.TransOrd α] (s : OrderedSet α) (a : α) : OrderedSet α :=
  ⟨insertList a s.toList, pairwise_insertList a s.ascending⟩

def erase (s : OrderedSet α) (a : α) : OrderedSet α :=
  ⟨s.toList.filter fun b => compare a b != .eq, s.ascending.filter _⟩

def filter (s : OrderedSet α) (p : α → Bool) : OrderedSet α :=
  ⟨s.toList.filter p, s.ascending.filter _⟩

def ofList [Std.TransOrd α] (l : List α) : OrderedSet α := l.foldl insert ∅

def singleton (a : α) : OrderedSet α := ⟨[a], by simp⟩

variable {a b : α} {s t : OrderedSet α}

theorem mem_iff_mem_toList : a ∈ s ↔ a ∈ s.toList := Iff.rfl

@[simp] theorem not_mem_empty : a ∉ (∅ : OrderedSet α) := List.not_mem_nil

@[simp] theorem mem_filter {p : α → Bool} : a ∈ s.filter p ↔ a ∈ s ∧ p a :=
  List.mem_filter

@[simp] theorem mem_insert [Std.TransOrd α] [Std.LawfulEqOrd α] :
    b ∈ s.insert a ↔ b = a ∨ b ∈ s := by
  have key : ∀ l : List α, b ∈ insertList a l ↔ b = a ∨ b ∈ l := by
    intro l
    refine ⟨mem_of_mem_insertList, fun h => ?_⟩
    induction l with
    | nil => simpa [insertList] using h
    | cons c cs ih =>
      unfold insertList
      split
      · simpa using h
      · rename_i e
        have e := Std.LawfulEqOrd.eq_of_compare e
        rcases h with h | h
        · simp [h, e]
        · exact h
      · rcases h with h | h
        · exact List.mem_cons_of_mem _ (ih (.inl h))
        · rcases List.mem_cons.mp h with h | h
          · simp [h]
          · exact List.mem_cons_of_mem _ (ih (.inr h))
  exact key s.toList

@[simp] theorem mem_erase [Std.LawfulEqOrd α] : b ∈ s.erase a ↔ b ≠ a ∧ b ∈ s := by
  have : compare a b = .eq ↔ b = a := by
    constructor
    · intro h; exact (Std.LawfulEqOrd.eq_of_compare h).symm
    · rintro rfl; exact Std.ReflCmp.compare_self
  simp [erase, mem_iff_mem_toList, List.mem_filter, this, and_comm]

theorem contains_iff [Std.LawfulEqOrd α] : s.contains a = true ↔ a ∈ s := by
  simp only [contains, List.any_eq_true, beq_iff_eq]
  constructor
  · rintro ⟨b, hb, h⟩
    exact (Std.LawfulEqOrd.eq_of_compare h) ▸ hb
  · exact fun h => ⟨a, h, Std.ReflCmp.compare_self⟩

instance [Std.LawfulEqOrd α] (a : α) (s : OrderedSet α) : Decidable (a ∈ s) :=
  decidable_of_iff _ contains_iff

end OrderedSet
end FlightTrace
