import FlightTrace.Index.Watermark
import FlightTrace.Proofs.Ordered

/-! The watermark under its operations. What is finished is what lies below the mark or waits above it;
finishing a number adds just that number, however far the mark moves. -/
namespace FlightTrace
namespace Watermark

theorem mem_advance {m n : Nat} {is : List Nat} :
    m < (advance n is).1 ∨ m ∈ (advance n is).2 ↔ m < n ∨ m ∈ is := by
  induction is generalizing n with
  | nil => simp [advance]
  | cons i is ih =>
    rw [advance]
    by_cases hi : i = n
    · rw [if_pos hi, ih, List.mem_cons, hi, Nat.lt_succ_iff_lt_or_eq, or_assoc]
    · rw [if_neg hi]
      simp only [List.mem_cons]
      rw [or_left_comm, ih, or_left_comm]

theorem advance_of_lt {n : Nat} {is : List Nat} (h : ∀ i ∈ is, n < i) : advance n is = (n, is) := by
  induction is with
  | nil => rfl
  | cons i is ih =>
    have hi : i ≠ n := (h i List.mem_cons_self).ne'
    rw [advance, if_neg hi, ih fun j hj => h j (List.mem_cons_of_mem i hj)]

/-- The mark stops short of what still waits. -/
theorem advance_lt {n : Nat} {is : List Nat} (hs : is.Pairwise (· < ·)) (h : ∀ i ∈ is, n ≤ i) :
    ∀ i ∈ (advance n is).2, (advance n is).1 < i := by
  induction is generalizing n with
  | nil => simp [advance]
  | cons j is ih =>
    obtain ⟨hj, hs⟩ := List.pairwise_cons.mp hs
    by_cases hjn : j = n
    · rw [advance, if_pos hjn]
      exact ih hs fun i hi => hjn ▸ hj i hi
    · have hlt : ∀ i ∈ j :: is, n < i := by
        have hnj : n < j := lt_of_le_of_ne (h j List.mem_cons_self) (Ne.symm hjn)
        intro i hi
        rcases List.mem_cons.mp hi with rfl | hi
        · exact hnj
        · exact hnj.trans (hj i hi)
      rw [advance_of_lt hlt]
      exact hlt

theorem le_advance (n : Nat) (is : List Nat) : n ≤ (advance n is).1 := by
  induction is generalizing n with
  | nil => exact Nat.le_refl n
  | cons i is ih =>
    rw [advance]
    split
    · exact (Nat.le_succ n).trans (ih (n + 1))
    · exact ih n

theorem advance_add_length (n : Nat) (is : List Nat) :
    (advance n is).1 + (advance n is).2.length = n + is.length := by
  induction is generalizing n with
  | nil => rfl
  | cons i is ih =>
    rw [advance]
    split
    · rw [ih, List.length_cons]
      omega
    · simp only [List.length_cons]
      rw [← Nat.add_assoc, ih]
      omega

variable (w : Watermark)

def Finished (n : Nat) : Prop := n < w.visible ∨ n ∈ w.pending

theorem finished_finish (i n : Nat) : (w.finish i).Finished n ↔ n = i ∨ w.Finished n := by
  have hins : n ∈ (w.pending.insert i).toList ↔ n = i ∨ n ∈ w.pending := OrderedSet.mem_insert
  refine mem_advance.trans ?_
  rw [hins, Finished]
  exact or_left_comm

theorem waiting_finish {i : Nat} (hi : w.visible ≤ i) (h : ∀ n ∈ w.pending, w.visible < n) :
    ∀ n ∈ (w.finish i).pending, (w.finish i).visible < n := by
  refine advance_lt ((w.pending.insert i).ascending.imp fun hab => Nat.compare_eq_lt.mp hab) ?_
  intro n hn
  rcases OrderedSet.mem_insert.mp hn with rfl | hn
  · exact hi
  · exact (h n hn).le

def closed (w : Watermark) : Nat := w.visible + w.pending.size

theorem closed_finish {i : Nat} (h : ¬w.Finished i) : (w.finish i).closed = w.closed + 1 := by
  have hsize : (w.pending.insert i).size = w.pending.size + 1 :=
    OrderedSet.size_insert fun hi => h (.inr hi)
  calc (w.finish i).closed = w.visible + (w.pending.insert i).size := advance_add_length _ _
    _ = w.closed + 1 := by rw [hsize, closed, Nat.add_assoc]

theorem reserve?_eq_some_iff {i : RecordId} {w' : Watermark} : w.reserve? = some (i, w') ↔
    i.val = w.reserved ∧ w' = { w with reserved := w.reserved + 1 } := by
  rw [reserve?, Option.map_eq_some_iff]
  constructor
  · rintro ⟨j, hj, he⟩
    obtain ⟨rfl, rfl⟩ := Prod.mk.inj he
    rw [RecordId.ofNat?] at hj
    split at hj
    · cases hj
      exact ⟨rfl, rfl⟩
    · cases hj
  · rintro ⟨hi, rfl⟩
    exact ⟨i, by rw [← hi, RecordId.ofNat?_val], rfl⟩

/-- When all numbers are finished, the mark stands behind the last one and nothing waits. -/
theorem visible_eq_reserved (h : ∀ n, w.Finished n ↔ n < w.reserved)
    (hw : ∀ n ∈ w.pending, w.visible < n) : w.visible = w.reserved ∧ ∀ n, n ∉ w.pending := by
  have hle : w.visible ≤ w.reserved := by
    by_contra hlt
    exact absurd ((h w.reserved).mp (.inl (not_le.mp hlt))) (lt_irrefl _)
  have hge : w.reserved ≤ w.visible := by
    by_contra hlt
    rcases (h w.visible).mpr (not_le.mp hlt) with hv | hv
    · exact absurd hv (lt_irrefl _)
    · exact absurd (hw _ hv) (lt_irrefl _)
  refine ⟨le_antisymm hle hge, fun n hn => ?_⟩
  have hlt := (h n).mp (.inr hn)
  have := hw n hn
  omega

end Watermark
end FlightTrace
