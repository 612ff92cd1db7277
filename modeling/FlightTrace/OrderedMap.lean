/-! Finite maps kept as lists of pairs with strictly ascending keys. A map is determined by what
looking up each key gives. -/
namespace FlightTrace

structure OrderedMap (κ β : Type) [Ord κ] where
  toList : List (κ × β)
  ascending : toList.Pairwise fun a b => compare a.1 b.1 = .lt

namespace OrderedMap

variable {κ β : Type} [Ord κ]

instance : EmptyCollection (OrderedMap κ β) := ⟨⟨[], .nil⟩⟩

instance : Inhabited (OrderedMap κ β) := ⟨∅⟩

def isEmpty (m : OrderedMap κ β) : Bool := m.toList.isEmpty

def size (m : OrderedMap κ β) : Nat := m.toList.length

def keys (m : OrderedMap κ β) : List κ := m.toList.map (·.1)

def lookupList (k : κ) : List (κ × β) → Option β
  | [] => none
  | (j, v) :: ps => if compare j k = .eq then some v else lookupList k ps

def get? (m : OrderedMap κ β) (k : κ) : Option β := lookupList k m.toList

def contains (m : OrderedMap κ β) (k : κ) : Bool := (m.get? k).isSome

/-- Puts a pair in front of the first greater key, or in place of an equal one. -/
def insertList (k : κ) (v : β) : List (κ × β) → List (κ × β)
  | [] => [(k, v)]
  | (j, w) :: ps =>
    match compare k j with
    | .lt => (k, v) :: (j, w) :: ps
    | .eq => (k, v) :: ps
    | .gt => (j, w) :: insertList k v ps

theorem key_of_mem_insertList {k : κ} {v : β} {p : κ × β} {l : List (κ × β)}
    (h : p ∈ insertList k v l) : p.1 = k ∨ p ∈ l := by
  induction l with
  | nil => exact Or.inl (by simp_all [insertList])
  | cons q qs ih =>
    obtain ⟨j, w⟩ := q
    unfold insertList at h
    split at h
    · rcases List.mem_cons.mp h with h | h
      · exact Or.inl (by simp [h])
      · exact Or.inr h
    · rcases List.mem_cons.mp h with h | h
      · exact Or.inl (by simp [h])
      · exact Or.inr (List.mem_cons_of_mem _ h)
    · rcases List.mem_cons.mp h with h | h
      · exact Or.inr (by simp [h])
      · exact (ih h).imp_right (List.mem_cons_of_mem _)

theorem pairwise_insertList [Std.TransOrd κ] (k : κ) (v : β) {l : List (κ × β)}
    (h : l.Pairwise fun a b => compare a.1 b.1 = .lt) :
    (insertList k v l).Pairwise fun a b => compare a.1 b.1 = .lt := by
  induction l with
  | nil => simp [insertList]
  | cons q qs ih =>
    obtain ⟨j, w⟩ := q
    have ⟨hq, hqs⟩ := List.pairwise_cons.mp h
    unfold insertList
    split
    · rename_i e
      refine List.pairwise_cons.mpr ⟨fun c hc => ?_, h⟩
      rcases List.mem_cons.mp hc with hc | hc
      · simpa [hc] using e
      · exact Std.TransCmp.lt_trans e (hq c hc)
    · rename_i e
      exact List.pairwise_cons.mpr ⟨fun c hc => Std.TransCmp.lt_of_eq_of_lt e (hq c hc), hqs⟩
    · rename_i e
      refine List.pairwise_cons.mpr ⟨fun c hc => ?_, ih hqs⟩
      rcases key_of_mem_insertList hc with hc | hc
      · simpa [hc] using Std.OrientedCmp.lt_of_gt e
      · exact hq c hc

def insert [Std.TransOrd κ] (m : OrderedMap κ β) (k : κ) (v : β) : OrderedMap κ β :=
  ⟨insertList k v m.toList, pairwise_insertList k v m.ascending⟩

def erase (m : OrderedMap κ β) (k : κ) : OrderedMap κ β :=
  ⟨m.toList.filter fun p => compare p.1 k != .eq, m.ascending.filter _⟩

variable {k j : κ} {v : β} {m m' : OrderedMap κ β}

@[simp] theorem get?_empty : (∅ : OrderedMap κ β).get? k = none := rfl

theorem get?_insert [Std.TransOrd κ] [Std.LawfulEqOrd κ] [DecidableEq κ] :
    (m.insert k v).get? j = if j = k then some v else m.get? j := by
  have key : ∀ l : List (κ × β),
      lookupList j (insertList k v l) = if j = k then some v else lookupList j l := by
    intro l
    have self : compare k j = .eq ↔ j = k :=
      ⟨fun h => (Std.LawfulEqOrd.eq_of_compare h).symm, fun h => h ▸ Std.ReflCmp.compare_self⟩
    induction l with
    | nil => simp [insertList, lookupList, self]
    | cons q qs ih =>
      obtain ⟨i, w⟩ := q
      unfold insertList
      split
      · simp [lookupList, self]
      · rename_i e
        have e := Std.LawfulEqOrd.eq_of_compare e
        subst e
        by_cases h : j = k <;> simp [lookupList, self, h]
      · rename_i e
        simp only [lookupList, ih]
        by_cases h : j = k
        · subst h
          have : compare i j ≠ .eq := by
            intro h
            have h := Std.LawfulEqOrd.eq_of_compare h
            subst h
            simp [Std.ReflCmp.compare_self] at e
          simp [this]
        · simp [h]
  exact key m.toList

theorem get?_erase [Std.LawfulEqOrd κ] [DecidableEq κ] :
    (m.erase k).get? j = if j = k then none else m.get? j := by
  have key : ∀ l : List (κ × β), lookupList j (l.filter fun p => compare p.1 k != .eq) =
      if j = k then none else lookupList j l := by
    intro l
    have self : ∀ a b : κ, compare a b = .eq ↔ a = b := fun a b =>
      ⟨Std.LawfulEqOrd.eq_of_compare, fun h => h ▸ Std.ReflCmp.compare_self⟩
    induction l with
    | nil => simp [lookupList]
    | cons q qs ih =>
      obtain ⟨i, w⟩ := q
      simp only [self, bne_iff_ne, ne_eq, lookupList, List.filter_cons] at ih ⊢
      grind [lookupList]
  exact key m.toList

end OrderedMap
end FlightTrace
