import Mathlib
import FlightTrace.Multimap

/-! Ascending lists. One that ascends strictly is known by its members, so ordered sets are known by their
members and ordered maps by what they give for each key. A map to sets in which no set is empty is known by
the values of each key. A stable sort keeps the order of equal values. -/
namespace FlightTrace
namespace Ordered

variable {α : Type}

theorem eq_of_ascending {R : α → α → Prop} {l l' : List α} (irrefl : ∀ a, ¬R a a)
    (asymm : ∀ a b, R a b → ¬R b a) (h : l.Pairwise R) (h' : l'.Pairwise R)
    (mem : ∀ a, a ∈ l ↔ a ∈ l') : l = l' := by
  have nodup {l : List α} (h : l.Pairwise R) : l.Nodup := by
    refine h.imp ?_
    rintro a _ hab rfl
    exact irrefl a hab
  have hperm : l.Perm l' := (List.perm_ext_iff_of_nodup (nodup h) (nodup h')).mpr mem
  exact hperm.eq_of_pairwise (fun a b _ _ hab hba => absurd hba (asymm a b hab)) h h'

theorem not_lt_self {β : Type} [Ord β] [Std.TransOrd β] (a : β) : compare a a ≠ .lt := by
  have h : compare a a = .eq := Std.ReflCmp.compare_self
  rw [h]
  decide

theorem not_lt_of_lt {β : Type} [Ord β] [Std.TransOrd β] {a b : β} (h : compare a b = .lt) :
    compare b a ≠ .lt := by
  rw [Std.OrientedCmp.gt_of_lt h]
  decide

theorem eq_of_ascending_compare {β : Type} [Ord β] [Std.TransOrd β] {l l' : List β}
    (h : l.Pairwise fun a b => compare a b = .lt) (h' : l'.Pairwise fun a b => compare a b = .lt)
    (mem : ∀ a, a ∈ l ↔ a ∈ l') : l = l' :=
  eq_of_ascending not_lt_self (fun _ _ => not_lt_of_lt) h h' mem

theorem nodup_of_ascending {β : Type} [Ord β] [Std.TransOrd β] {l : List β}
    (h : l.Pairwise fun a b => compare a b = .lt) : l.Nodup := by
  refine h.imp ?_
  rintro a _ hab rfl
  exact not_lt_self a hab

theorem length_eq_succ {β : Type} [Ord β] [Std.TransOrd β] {l l' : List β} {a : β}
    (h : l.Pairwise fun a b => compare a b = .lt) (h' : l'.Pairwise fun a b => compare a b = .lt) (ha : a ∉ l)
    (mem : ∀ b, b ∈ l' ↔ b = a ∨ b ∈ l) : l'.length = l.length + 1 := by
  have hcons : (a :: l).Nodup := List.nodup_cons.mpr ⟨ha, nodup_of_ascending h⟩
  have hperm : l'.Perm (a :: l) := by
    refine (List.perm_ext_iff_of_nodup (nodup_of_ascending h') hcons).mpr fun b => ?_
    rw [List.mem_cons, mem]
  exact hperm.length_eq

/-- Two lists that ascend strictly correspond value by value if each value has a counterpart in the other list
and the order of values is that of their counterparts. -/
theorem forall₂_of_ascending {α β : Type} [Ord α] [Std.TransOrd α] [Ord β] [Std.TransOrd β] {R : α → β → Prop}
    (horder : ∀ {a b : α} {a' b' : β}, R a a' → R b b' → compare a b = compare a' b') {l : List α}
    {l' : List β} (hl : l.Pairwise fun a b => compare a b = .lt) (hl' : l'.Pairwise fun a b => compare a b = .lt)
    (hex : ∀ a ∈ l, ∃ a' ∈ l', R a a') (hex' : ∀ a' ∈ l', ∃ a ∈ l, R a a') : List.Forall₂ R l l' := by
  induction l generalizing l' with
  | nil =>
    cases l' with
    | nil => exact .nil
    | cons b' m' =>
      obtain ⟨a, ha, -⟩ := hex' b' List.mem_cons_self
      cases ha
  | cons a m ih =>
    obtain ⟨ham, hm⟩ := List.pairwise_cons.mp hl
    cases l' with
    | nil =>
      obtain ⟨a', ha', -⟩ := hex a List.mem_cons_self
      cases ha'
    | cons b' m' =>
      obtain ⟨hbm, hm'⟩ := List.pairwise_cons.mp hl'
      have hhead : R a b' := by
        obtain ⟨a', ha', hr⟩ := hex a List.mem_cons_self
        obtain ⟨b, hb, hr'⟩ := hex' b' List.mem_cons_self
        rcases List.mem_cons.mp ha' with rfl | ha'
        · exact hr
        · rcases List.mem_cons.mp hb with rfl | hb
          · exact hr'
          · have hlt := ham b hb
            rw [horder hr hr'] at hlt
            exact absurd hlt (not_lt_of_lt (hbm a' ha'))
      refine .cons hhead (ih hm hm' (fun x hx => ?_) fun x' hx' => ?_)
      · obtain ⟨x', hx', hr⟩ := hex x (List.mem_cons_of_mem a hx)
        refine ⟨x', (List.mem_cons.mp hx').resolve_left ?_, hr⟩
        rintro rfl
        have hlt := ham x hx
        rw [horder hhead hr] at hlt
        exact not_lt_self _ hlt
      · obtain ⟨x, hx, hr⟩ := hex' x' (List.mem_cons_of_mem b' hx')
        refine ⟨x, (List.mem_cons.mp hx).resolve_left ?_, hr⟩
        rintro rfl
        have hlt := hbm x' hx'
        rw [← horder hhead hr] at hlt
        exact not_lt_self _ hlt

/-- Sorting puts values in order, and those that are equal for the order stay as they were. -/
theorem pairwise_mergeSort_stable {le : α → α → Bool} (trans : ∀ a b c, le a b → le b c → le a c)
    (total : ∀ a b, le a b || le b a) {R : α → α → Prop} {l : List α} (h : l.Pairwise R) :
    (l.mergeSort le).Pairwise fun a b => le a b ∧ (le b a → R a b) := by
  induction l with
  | nil => simp
  | cons a l ih =>
    obtain ⟨hal, hl⟩ := List.pairwise_cons.mp h
    obtain ⟨l₁, l₂, hsort, htail, hbefore⟩ := List.mergeSort_cons trans total a l
    have hle := List.pairwise_mergeSort trans total (a :: l)
    have ih := ih hl
    rw [hsort] at hle ⊢
    rw [htail] at ih
    obtain ⟨ih₁, ih₂, ih₁₂⟩ := List.pairwise_append.mp ih
    obtain ⟨-, hle₂, hle₁⟩ := List.pairwise_append.mp hle
    have hmem {b : α} (hb : b ∈ l₂) : b ∈ l := by
      have hsorted : b ∈ l.mergeSort le := by
        rw [htail]
        exact List.mem_append_right _ hb
      exact List.mem_mergeSort.mp hsorted
    refine List.pairwise_append.mpr ⟨ih₁, List.pairwise_cons.mpr ⟨?_, ih₂⟩, ?_⟩
    · intro b hb
      exact ⟨(List.pairwise_cons.mp hle₂).1 b hb, fun _ => hal b (hmem hb)⟩
    · intro b hb c hc
      rcases List.mem_cons.mp hc with rfl | hc
      · have hbefore := hbefore b hb
        exact ⟨hle₁ b hb c List.mem_cons_self, fun hcb => absurd hcb (by simpa using hbefore)⟩
      · exact ih₁₂ b hb c hc

variable {β : Type} [Ord β] [Std.TransOrd β]

def leOn (f : α → β) (a b : α) : Bool := (compare (f a) (f b)).isLE

theorem leOn_trans (f : α → β) (a b c : α) (hab : leOn f a b = true) (hbc : leOn f b c = true) :
    leOn f a c = true := Std.TransCmp.isLE_trans hab hbc

theorem leOn_total (f : α → β) (a b : α) : (leOn f a b || leOn f b a) = true := by
  have hswap : compare (f b) (f a) = (compare (f a) (f b)).swap := Std.OrientedCmp.eq_swap
  rw [leOn, leOn, hswap]
  cases compare (f a) (f b) <;> rfl

omit [Std.TransOrd β] in
theorem map_mergeSort {γ : Type} (f : α → β) (g : γ → α) (l : List γ) :
    (l.mergeSort (leOn fun c => f (g c))).map g = (l.map g).mergeSort (leOn f) :=
  List.map_mergeSort fun _ _ _ _ => rfl

theorem mergeSort_ascending [Std.LawfulEqOrd β] {l : List β} (h : l.Nodup) :
    (l.mergeSort (leOn id)).Pairwise fun a b => compare a b = .lt := by
  refine (pairwise_mergeSort_stable (leOn_trans id) (leOn_total id) h).imp fun {a b} hab => ?_
  obtain ⟨hle, hne⟩ := hab
  simp only [leOn, id_eq] at hle hne
  cases hc : compare a b with
  | lt => rfl
  | eq =>
    have heq := Std.LawfulEqOrd.eq_of_compare hc
    subst heq
    exact absurd rfl (hne hle)
  | gt =>
    rw [hc] at hle
    cases hle

end Ordered

namespace OrderedSet

variable {α : Type} [Ord α] [Std.TransOrd α] {s t : OrderedSet α}

theorem ext (h : ∀ a, a ∈ s ↔ a ∈ t) : s = t := by
  have hl : s.toList = t.toList := Ordered.eq_of_ascending_compare s.ascending t.ascending h
  cases s
  cases t
  rw [mk.injEq]
  exact hl

omit [Std.TransOrd α] in
theorem isEmpty_iff : s.isEmpty = true ↔ s = ∅ := by
  cases s
  simp only [isEmpty, List.isEmpty_iff]
  constructor
  · rintro rfl
    rfl
  · intro h
    exact congrArg toList h

omit [Std.TransOrd α] in
theorem ne_empty_iff : s ≠ ∅ ↔ ∃ a, a ∈ s := by
  rw [← not_iff_not, not_not, not_exists, ← isEmpty_iff, isEmpty, List.isEmpty_iff]
  exact List.eq_nil_iff_forall_not_mem

theorem size_insert [Std.LawfulEqOrd α] {a : α} (h : a ∉ s) : (s.insert a).size = s.size + 1 :=
  Ordered.length_eq_succ s.ascending (s.insert a).ascending h fun _ => mem_insert

variable [Std.LawfulEqOrd α] {l : List α}

theorem mem_ofList {a : α} : a ∈ ofList l ↔ a ∈ l := by
  have key (s : OrderedSet α) : a ∈ l.foldl insert s ↔ a ∈ l ∨ a ∈ s := by
    induction l generalizing s with
    | nil => simp
    | cons b l ih => rw [List.foldl_cons, ih, mem_insert, List.mem_cons, or_left_comm, or_assoc]
  rw [ofList, key]
  exact or_iff_left not_mem_empty

theorem toList_ofList (h : l.Pairwise fun a b => compare a b = .lt) : (ofList l).toList = l :=
  Ordered.eq_of_ascending_compare (ofList l).ascending h fun _ => mem_ofList

end OrderedSet

namespace OrderedMap

variable {κ β : Type} [Ord κ] [Std.TransOrd κ] [Std.LawfulEqOrd κ] {m m' : OrderedMap κ β} {k : κ} {v : β}

theorem mem_toList_iff : (k, v) ∈ m.toList ↔ m.get? k = some v := by
  have key : ∀ l : List (κ × β), (l.Pairwise fun a b => compare a.1 b.1 = .lt) →
      ((k, v) ∈ l ↔ lookupList k l = some v) := by
    intro l hl
    induction l with
    | nil => simp [lookupList]
    | cons p ps ih =>
      obtain ⟨j, w⟩ := p
      obtain ⟨hj, hps⟩ := List.pairwise_cons.mp hl
      rw [List.mem_cons, lookupList, ih hps]
      by_cases he : compare j k = .eq
      · have hjk := Std.LawfulEqOrd.eq_of_compare he
        subst hjk
        rw [if_pos he, ← ih hps]
        refine ⟨fun h => ?_, fun h => .inl (by rw [Option.some.inj h])⟩
        rcases h with h | h
        · rw [(Prod.mk.inj h).2]
        · exact absurd (hj _ h) (Ordered.not_lt_self j)
      · rw [if_neg he]
        refine ⟨fun h => h.resolve_left fun h => he ?_, .inr⟩
        rw [(Prod.mk.inj h).1]
        exact Std.ReflCmp.compare_self
  exact key m.toList m.ascending

theorem ext_get? (h : ∀ k, m.get? k = m'.get? k) : m = m' := by
  have hl : m.toList = m'.toList := by
    refine Ordered.eq_of_ascending (fun p => Ordered.not_lt_self p.1)
      (fun _ _ => Ordered.not_lt_of_lt) m.ascending m'.ascending fun p => ?_
    rw [mem_toList_iff, mem_toList_iff, h]
  cases m
  cases m'
  rw [mk.injEq]
  exact hl

omit [Std.TransOrd κ] [Std.LawfulEqOrd κ] in
theorem keys_ascending : m.keys.Pairwise fun a b => compare a b = .lt :=
  List.pairwise_map.mpr m.ascending

theorem mem_keys_iff : k ∈ m.keys ↔ m.contains k = true := by
  rw [contains, Option.isSome_iff_exists, keys, List.mem_map]
  constructor
  · rintro ⟨⟨j, v⟩, hp, rfl⟩
    exact ⟨v, mem_toList_iff.mp hp⟩
  · rintro ⟨v, hv⟩
    exact ⟨(k, v), mem_toList_iff.mpr hv, rfl⟩

theorem keys_eq_of_contains {γ : Type} {m' : OrderedMap κ γ} (h : ∀ k, m.contains k = m'.contains k) :
    m.keys = m'.keys := by
  refine Ordered.eq_of_ascending_compare m.keys_ascending m'.keys_ascending fun k => ?_
  rw [mem_keys_iff, mem_keys_iff, h]

omit [Std.TransOrd κ] [Std.LawfulEqOrd κ] in
theorem size_eq_length_keys : m.size = m.keys.length := by
  rw [size, keys, List.length_map]

variable [DecidableEq κ] {j : κ}

theorem contains_insert : (m.insert k v).contains j = (decide (j = k) || m.contains j) := by
  rw [contains, get?_insert]
  by_cases h : j = k <;> simp [h, contains]

theorem size_insert (h : m.contains k = false) : (m.insert k v).size = m.size + 1 := by
  have hnot : k ∉ m.keys := fun hk => by
    rw [mem_keys_iff, h] at hk
    cases hk
  rw [size_eq_length_keys, size_eq_length_keys]
  refine Ordered.length_eq_succ keys_ascending keys_ascending hnot fun j => ?_
  rw [mem_keys_iff, mem_keys_iff, contains_insert, Bool.or_eq_true, decide_eq_true_iff]

omit [Std.TransOrd κ] in
theorem contains_erase : (m.erase k).contains j = (decide (j ≠ k) && m.contains j) := by
  rw [contains, get?_erase]
  by_cases h : j = k <;> simp [h, contains]

end OrderedMap

namespace Multimap

variable {κ α : Type} [Ord κ] [Ord α]

/-- Whether every key has a value. -/
def Full (m : Multimap κ α) : Prop := ∀ k s, m.get? k = some s → s ≠ ∅

theorem full_empty : Full (∅ : Multimap κ α) := by
  intro k s hs
  cases hs

theorem Full.contains_iff {m : Multimap κ α} (h : Full m) {k : κ} :
    OrderedMap.contains m k = true ↔ ∃ a, a ∈ values m k := by
  rw [OrderedMap.contains, values]
  cases hs : m.get? k with
  | none => simp
  | some s =>
    have hne : ∃ a, a ∈ s := OrderedSet.ne_empty_iff.mp (h k s hs)
    simpa using hne

/-- The set kept for a key is that of its values, which is there just if it is not empty. -/
theorem Full.get?_eq_some_iff [Std.TransOrd α] {m : Multimap κ α} (h : Full m) {k : κ} {s : OrderedSet α} :
    m.get? k = some s ↔ s ≠ ∅ ∧ ∀ a, a ∈ s ↔ a ∈ values m k := by
  constructor
  · intro hs
    refine ⟨h k s hs, fun a => ?_⟩
    rw [values, hs, Option.getD_some]
  · rintro ⟨hne, hmem⟩
    obtain ⟨a, ha⟩ := OrderedSet.ne_empty_iff.mp hne
    cases hk : m.get? k with
    | none =>
      have hnone : a ∈ values m k := (hmem a).mp ha
      rw [values, hk] at hnone
      exact absurd hnone OrderedSet.not_mem_empty
    | some s' =>
      have heq : s = s' := OrderedSet.ext fun b => by rw [hmem, values, hk, Option.getD_some]
      rw [heq]

variable [DecidableEq κ] [Std.TransOrd κ] [Std.LawfulEqOrd κ] {m : Multimap κ α} {k : κ} {a : α}

theorem Full.enter [Std.TransOrd α] [Std.LawfulEqOrd α] (h : Full m) : Full (m.enter k a) := by
  intro j s hs
  rw [Multimap.enter, OrderedMap.get?_insert] at hs
  split at hs
  · obtain rfl := Option.some.inj hs
    exact OrderedSet.ne_empty_iff.mpr ⟨a, OrderedSet.mem_insert.mpr (.inl rfl)⟩
  · exact h j s hs

theorem Full.strike (h : Full m) : Full (m.strike k a) := by
  intro j s hs
  rw [Multimap.strike] at hs
  cases hk : m.get? k with
  | none =>
    rw [hk] at hs
    exact h j s hs
  | some s₀ =>
    simp only [hk] at hs
    split at hs
    · rw [OrderedMap.get?_erase] at hs
      split at hs
      · cases hs
      · exact h j s hs
    · rename_i hne
      rw [OrderedMap.get?_insert] at hs
      split at hs
      · obtain rfl := Option.some.inj hs
        exact fun he => hne (OrderedSet.isEmpty_iff.mpr he)
      · exact h j s hs

theorem Full.size_eq (h : Full m) {ks : Finset κ} (hks : ∀ k, k ∈ ks ↔ ∃ a, a ∈ values m k) :
    m.size = ks.card := by
  have hnodup : (OrderedMap.keys m).Nodup := Ordered.nodup_of_ascending OrderedMap.keys_ascending
  have hset : (OrderedMap.keys m).toFinset = ks := by
    ext k
    rw [List.mem_toFinset, OrderedMap.mem_keys_iff, h.contains_iff, hks]
  rw [OrderedMap.size_eq_length_keys, ← hset, List.toFinset_card_of_nodup hnodup]

end Multimap
end FlightTrace
