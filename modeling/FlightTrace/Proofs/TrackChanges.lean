import Mathlib
import FlightTrace.Track

/-! What thinning out a track keeps: the first trace, the last, and those at which the callsign or the squawk
in effect changes. A compactor that has taken in some traces knows of them what is in effect at their end and
whether the last of them is still to be kept; each push takes this to the traces with one more. -/
namespace FlightTrace
namespace Track

/-- The value that some traces mention last. -/
def lastMention {α : Type} (f : Trace → Option α) (ts : List Trace) : Option α := (ts.filterMap f).getLast?

/-- The callsign and the squawk that the traces up to an index mention last. -/
def effective (ts : List Trace) (i : Nat) : Option Callsign × Option Squawk :=
  (lastMention Trace.callsign (ts.take (i + 1)), lastMention Trace.squawk (ts.take (i + 1)))

/-- Whether an index starts a new stretch: the first does, and any with another pair in effect than the index
before. -/
def Changed (ts : List Trace) (i : Nat) : Prop := i = 0 ∨ effective ts i ≠ effective ts (i - 1)

def Kept (ts : List Trace) (i : Nat) : Prop := Changed ts i ∨ i + 1 = ts.length

instance (ts : List Trace) (i : Nat) : Decidable (Changed ts i) := inferInstanceAs (Decidable (_ ∨ _))

instance (ts : List Trace) (i : Nat) : Decidable (Kept ts i) := inferInstanceAs (Decidable (_ ∨ _))

def fillIn (ts : List Trace) (t : Trace) (i : Nat) : Trace :=
  { t with callsign := (effective ts i).1, squawk := (effective ts i).2 }

def keptAt (ts : List Trace) : List (Trace × Nat) :=
  (ts.zipIdx.filter fun p => Kept ts p.2).map fun p => (fillIn ts p.1 p.2, p.2)

theorem effective_append {p : List Trace} {i : Nat} (h : i < p.length) (ts : List Trace) :
    effective (p ++ ts) i = effective p i := by
  rw [effective, List.take_append_of_le_length h, effective]

theorem changed_append {p : List Trace} {i : Nat} (h : i < p.length) (ts : List Trace) :
    Changed (p ++ ts) i ↔ Changed p i := by
  rw [Changed, effective_append h, effective_append (by omega), Changed]

theorem fillIn_append {p : List Trace} {i : Nat} (h : i < p.length) (ts : List Trace) (t : Trace) :
    fillIn (p ++ ts) t i = fillIn p t i := by
  rw [fillIn, effective_append h, fillIn]

namespace Compactor

theorem changes_iff {α : Type} [DecidableEq α] (known new : Option α) :
    changes known new = true ↔ new.or known ≠ known := by
  cases new <;> simp [changes]

theorem lastMention_append {α : Type} (f : Trace → Option α) (p : List Trace) (t : Trace) :
    lastMention f (p ++ [t]) = (f t).or (lastMention f p) := by
  rw [lastMention, List.filterMap_append, lastMention]
  cases h : f t with
  | none => simp [h]
  | some a => simp [h]

theorem effective_last (p : List Trace) (t : Trace) : effective (p ++ [t]) p.length =
    (t.callsign.or (lastMention Trace.callsign p), t.squawk.or (lastMention Trace.squawk p)) := by
  have hall : (p ++ [t]).take (p.length + 1) = p ++ [t] := List.take_of_length_le (by simp)
  rw [effective, hall, lastMention_append, lastMention_append]

theorem effective_before {p : List Trace} (hp : p ≠ []) (t : Trace) :
    effective (p ++ [t]) (p.length - 1) = (lastMention Trace.callsign p, lastMention Trace.squawk p) := by
  have hpos : 0 < p.length := List.length_pos_iff.mpr hp
  have hall : (p ++ [t]).take (p.length - 1 + 1) = p := by
    rw [Nat.sub_add_cancel hpos, List.take_left]
  rw [effective, hall]

/-- The last of some traces, filled in, unless a change has made it a kept one already. -/
def waiting? (p : List Trace) : Option Trace :=
  if Changed p (p.length - 1) then none else p.getLast?.map fun t => fillIn p t (p.length - 1)

theorem waiting?_append (p : List Trace) (t : Trace) : waiting? (p ++ [t]) =
    if Changed (p ++ [t]) p.length then none else some (fillIn (p ++ [t]) t p.length) := by
  have hlast : (p ++ [t]).length - 1 = p.length := by simp
  rw [waiting?, hlast, List.getLast?_append]
  rfl

/-- What a compactor knows that has taken in some traces. -/
def after (p : List Trace) : Compactor where
  callsign := lastMention Trace.callsign p
  squawk := lastMention Trace.squawk p
  started := p ≠ []
  held := waiting? p

theorem changed_last (p : List Trace) (t : Trace) : Changed (p ++ [t]) p.length ↔
    (!(after p).started || changes (after p).callsign t.callsign || changes (after p).squawk t.squawk) = true := by
  rw [Changed, effective_last]
  by_cases hp : p = []
  · simp [hp, after]
  · have hpos : p.length ≠ 0 := by simpa using hp
    rw [effective_before hp]
    simp only [after, Bool.or_eq_true, changes_iff, ne_eq, Prod.mk.injEq, not_and_or]
    simp [hp]

/-- A push keeps a trace just if it is a change, and holds it back otherwise. -/
theorem push_after (p : List Trace) (t : Trace) : (after p).push t =
    (if Changed (p ++ [t]) p.length then some (fillIn (p ++ [t]) t p.length) else none, after (p ++ [t])) := by
  let callsign := t.callsign.or (lastMention Trace.callsign p)
  let squawk := t.squawk.or (lastMention Trace.squawk p)
  have hfill : fillIn (p ++ [t]) t p.length = { t with callsign, squawk } := by
    rw [fillIn, effective_last]
  have hnext : after (p ++ [t]) = ⟨callsign, squawk, true,
      if Changed (p ++ [t]) p.length then none else some (fillIn (p ++ [t]) t p.length)⟩ := by
    rw [after, lastMention_append, lastMention_append, waiting?_append]
    simp [callsign, squawk]
  by_cases hc : Changed (p ++ [t]) p.length
  · rw [push, if_pos ((changed_last p t).mp hc), hnext, if_pos hc, if_pos hc, hfill]
    rfl
  · rw [push, if_neg fun h => hc ((changed_last p t).mpr h), hnext, if_neg hc, if_neg hc, hfill]
    rfl

/-- What is kept of the traces that are still to come, at least one, after some that were taken in. -/
theorem run_after (p : List Trace) (t : Trace) (ts : List Trace) : (after p).run (t :: ts) =
    (((t :: ts).zipIdx p.length).filter fun q => Kept (p ++ t :: ts) q.2).map
      fun q => fillIn (p ++ t :: ts) q.1 q.2 := by
  induction ts generalizing p t with
  | nil =>
    have hkept : Kept (p ++ [t]) p.length := .inr (by simp)
    have hfinish : (after (p ++ [t])).finish = waiting? (p ++ [t]) := rfl
    rw [run, push_after, List.zipIdx_cons, List.filter_cons, if_pos (decide_eq_true hkept)]
    simp only [run, hfinish, waiting?_append]
    by_cases hc : Changed (p ++ [t]) p.length <;> simp [hc]
  | cons u us ih =>
    have hsplit : p ++ t :: u :: us = (p ++ [t]) ++ u :: us := by simp
    have hlt : p.length < (p ++ [t]).length := by simp
    have hkept : Kept (p ++ t :: u :: us) p.length ↔ Changed (p ++ [t]) p.length := by
      rw [Kept, hsplit, changed_append hlt]
      exact or_iff_left (by simp)
    have hfill : fillIn (p ++ t :: u :: us) t p.length = fillIn (p ++ [t]) t p.length := by
      rw [hsplit, fillIn_append hlt]
    have hnext := ih (p ++ [t]) u
    rw [← hsplit, List.length_append, List.length_singleton] at hnext
    rw [run, push_after, List.zipIdx_cons, List.filter_cons]
    simp only [hnext, hkept, decide_eq_true_eq]
    split
    · rw [List.map_cons, hfill]
      rfl
    · rfl

theorem run_ne_nil {c : Compactor} (h : c.held ≠ none) (ts : List Trace) : c.run ts ≠ [] := by
  induction ts generalizing c with
  | nil =>
    rw [run, finish]
    simpa using h
  | cons t ts ih =>
    by_cases hc : (!c.started || changes c.callsign t.callsign || changes c.squawk t.squawk) = true
    · rw [run, push, if_pos hc]
      exact List.cons_ne_nil _ _
    · rw [run, push, if_neg hc]
      exact ih (Option.some_ne_none _)

/-- A trace that waits is what the compactor knows already, so that it would not be a change. -/
def Consistent (c : Compactor) : Prop :=
  ∀ t ∈ c.held, c.started = true ∧ t.callsign = c.callsign ∧ t.squawk = c.squawk

theorem or_or_self {α : Type} (a b : Option α) : (a.or b).or b = a.or b := by cases a <;> simp

theorem changes_or {α : Type} [DecidableEq α] (known new : Option α) :
    changes known (new.or known) = changes known new := by
  rw [Bool.eq_iff_iff, changes_iff, changes_iff, or_or_self]

/-- To run again over what was kept keeps all of it. -/
theorem run_run {c : Compactor} (h : c.Consistent) (ts : List Trace) : c.run (c.run ts) = c.run ts := by
  induction ts generalizing c with
  | nil =>
    rw [run, finish]
    cases hheld : c.held with
    | none => rw [Option.toList_none, run, finish, hheld, Option.toList_none]
    | some t =>
      obtain ⟨hstarted, hcallsign, hsquawk⟩ := h t hheld
      obtain ⟨time, address, callsign, squawk, source⟩ := t
      obtain rfl : callsign = c.callsign := hcallsign
      obtain rfl : squawk = c.squawk := hsquawk
      simp [run, push, finish, hstarted, changes]
  | cons t ts ih =>
    let filled : Trace := { t with callsign := t.callsign.or c.callsign, squawk := t.squawk.or c.squawk }
    by_cases hc : (!c.started || changes c.callsign t.callsign || changes c.squawk t.squawk) = true
    · let next : Compactor := ⟨filled.callsign, filled.squawk, true, none⟩
      have hpush : c.push t = (some filled, next) := if_pos hc
      have hagain : c.push filled = (some filled, next) := by
        have hc' : (!c.started || changes c.callsign filled.callsign || changes c.squawk filled.squawk) = true := by
          rw [changes_or, changes_or]
          exact hc
        simp only [push, if_pos hc']
        simp only [filled, next, or_or_self]
      have hrest : next.run (next.run ts) = next.run ts := ih fun u hu => by cases hu
      rw [run, hpush]
      simp only [Option.toList_some, List.singleton_append]
      rw [run, hagain]
      simp only [Option.toList_some, List.singleton_append, hrest]
    · obtain ⟨⟨hstarted, hcallsign⟩, hsquawk⟩ : (c.started = true ∧ filled.callsign = c.callsign) ∧
          filled.squawk = c.squawk := by
        simpa [changes_iff, filled, and_assoc] using hc
      -- nothing but the waiting trace is new, and the next push forgets that
      let next : Compactor := { c with held := some filled }
      have hpush : c.push t = (none, next) := by
        have hnext : (⟨filled.callsign, filled.squawk, true, some filled⟩ : Compactor) = next := by
          rw [hcallsign, hsquawk, ← hstarted]
        rw [push, if_neg hc, ← hnext]
      have hrest : next.run (next.run ts) = next.run ts := ih fun u hu => by
        cases hu
        exact ⟨hstarted, hcallsign, hsquawk⟩
      rw [run, hpush]
      simp only [Option.toList_none, List.nil_append]
      obtain ⟨u, us, hus⟩ := List.exists_cons_of_ne_nil (run_ne_nil (c := next) (by simp [next]) ts)
      rw [hus] at hrest ⊢
      exact hrest

end Compactor

theorem compact_eq (ts : List Trace) : compact ts = (keptAt ts).map Prod.fst := by
  rw [keptAt, List.map_map]
  cases ts with
  | nil => rfl
  | cons t ts => exact Compactor.run_after [] t ts

/-- A track that is thinned out keeps its times, but for those of the traces left out. -/
theorem times_compact (ts : List Trace) : ((compact ts).map Trace.time).Sublist (ts.map Trace.time) := by
  have hall : ts.zipIdx.map (fun p => p.1.time) = ts.map Trace.time := by
    conv_rhs => rw [← List.zipIdx_map_fst 0 ts, List.map_map]
    rfl
  rw [compact_eq, keptAt, List.map_map, List.map_map, ← hall]
  exact List.filter_sublist.map _

theorem compact_compact (ts : List Trace) : compact (compact ts) = compact ts :=
  Compactor.run_run (fun _ ht => by cases ht) ts

theorem filter_zipIdx_le (ts : List Trace) (j : Nat) :
    ts.zipIdx.filter (fun p => p.2 ≤ j) = (ts.take (j + 1)).zipIdx := by
  conv_lhs => rw [← List.take_append_drop (j + 1) ts, List.zipIdx_append, List.filter_append]
  have hfront : (ts.take (j + 1)).zipIdx.filter (fun p => p.2 ≤ j) = (ts.take (j + 1)).zipIdx := by
    refine List.filter_eq_self.mpr fun p hp => decide_eq_true ?_
    have hlt := (List.mem_zipIdx hp).2.1
    rw [List.length_take] at hlt
    omega
  have hback : ((ts.drop (j + 1)).zipIdx (0 + (ts.take (j + 1)).length)).filter (fun p => p.2 ≤ j) = [] := by
    refine List.filter_eq_nil_iff.mpr fun p hp => ?_
    obtain ⟨hle, hlt, -⟩ := List.mem_zipIdx hp
    rw [List.length_take] at hle hlt
    rw [List.length_drop] at hlt
    rw [decide_eq_true_eq]
    omega
  rw [hfront, hback, List.append_nil]

theorem filter_keptAt_le (ts : List Trace) (j : Nat) : (keptAt ts).filter (fun p => p.2 ≤ j) =
    ((ts.take (j + 1)).zipIdx.filter fun p => Kept ts p.2).map fun p => (fillIn ts p.1 p.2, p.2) := by
  rw [keptAt, List.filter_map, ← filter_zipIdx_le, List.filter_filter, List.filter_filter]
  refine congrArg _ (List.filter_congr fun p _ => ?_)
  exact Bool.and_comm _ _

theorem filter_keptAt_le_succ {ts : List Trace} {j : Nat} (h : j + 1 < ts.length) :
    (keptAt ts).filter (fun p => p.2 ≤ j + 1) = (keptAt ts).filter (fun p => p.2 ≤ j) ++
      if Kept ts (j + 1) then [(fillIn ts ts[j + 1] (j + 1), j + 1)] else [] := by
  have htake : ts.take (j + 1 + 1) = ts.take (j + 1) ++ [ts[j + 1]] := (List.take_append_getElem h).symm
  have hlength : (ts.take (j + 1)).length = j + 1 := List.length_take_of_le h.le
  rw [filter_keptAt_le, filter_keptAt_le, htake, List.zipIdx_append, List.filter_append, List.map_append, hlength]
  by_cases hk : Kept ts (j + 1) <;> simp [hk]

theorem last_kept {ts : List Trace} {j : Nat} (h : j < ts.length) :
    ∃ t i, ((keptAt ts).filter fun p => p.2 ≤ j).getLast? = some (t, i) ∧
      (t.callsign, t.squawk) = effective ts j := by
  induction j with
  | zero =>
    have hkept : Kept ts 0 := .inl (.inl rfl)
    have htake : ts.take (0 + 1) = [ts[0]] := by
      rw [← List.take_append_getElem h]
      rfl
    refine ⟨fillIn ts ts[0] 0, 0, ?_, rfl⟩
    rw [filter_keptAt_le, htake]
    simp [hkept]
  | succ j ih =>
    obtain ⟨t, i, hlast, heffective⟩ := ih (by omega)
    rw [filter_keptAt_le_succ h]
    by_cases hk : Kept ts (j + 1)
    · refine ⟨fillIn ts ts[j + 1] (j + 1), j + 1, ?_, rfl⟩
      rw [if_pos hk, List.getLast?_append]
      rfl
    · have hsame : effective ts (j + 1) = effective ts j := by
        by_contra hne
        exact hk (.inl (.inr hne))
      refine ⟨t, i, ?_, heffective.trans hsame.symm⟩
      rw [if_neg hk, List.append_nil, hlast]

/-- What is kept of a track are its first trace, its last, and those at which the callsign or the squawk in effect
changes, each once and in order and with what is in effect filled in. So what is in effect at any index can be read
off the last trace that is kept up to there, and nothing more can be left out of what was kept. -/
theorem compact_keeps_changes (ts : List Trace) :
    (keptAt ts).map Prod.snd = (List.range ts.length).filter (fun i => Kept ts i) ∧
      (∀ p ∈ keptAt ts, ∃ t, ts[p.2]? = some t ∧ p.1 = fillIn ts t p.2) ∧
      compact ts = (keptAt ts).map Prod.fst ∧
      (∀ j < ts.length, ∃ t i, ((keptAt ts).filter fun p => p.2 ≤ j).getLast? = some (t, i) ∧
        (t.callsign, t.squawk) = effective ts j) ∧
      compact (compact ts) = compact ts := by
  refine ⟨?_, fun p hp => ?_, compact_eq ts, fun j hj => last_kept hj, compact_compact ts⟩
  · rw [List.range_eq_range', ← List.zipIdx_map_snd, List.filter_map, keptAt, List.map_map]
    rfl
  · obtain ⟨⟨t, i⟩, hq, rfl⟩ := List.mem_map.mp hp
    exact ⟨t, List.mem_zipIdx_iff_getElem?.mp (List.mem_filter.mp hq).1, rfl⟩

end Track
end FlightTrace
