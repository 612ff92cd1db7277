import FlightTrace.Proofs.Watermark

/-! Numbers in use. They are given out one after the other, some of them with a guard, and are finished in any
order, by name or because their guard goes away. As long as none is finished twice, the mark stands at the least
number that is given out and not finished. -/
namespace FlightTrace
namespace Watermark

inductive Event where
  | reserve
  /-- Reserves a number together with a guard. -/
  | reserveGuarded
  | finish (i : RecordId)
  /-- Drops the guard of a number, if there is one, and so finishes the number. -/
  | drop (i : RecordId)

/-- A watermark, with the numbers that were given out, those whose guard is still there, and those that were
finished. -/
structure History where
  watermark : Watermark := ∅
  given : List RecordId := []
  guarded : List RecordId := []
  finished : List RecordId := []

namespace History

def reserve? (h : History) : Option (RecordId × History) :=
  h.watermark.reserve?.map fun (i, watermark) => (i, { h with watermark, given := h.given ++ [i] })

def finish (h : History) (i : RecordId) : History :=
  { h with watermark := h.watermark.finish i.val, finished := h.finished ++ [i] }

def step (h : History) : Event → History
  | .reserve =>
    match h.reserve? with
    | some (_, h) => h
    | none => h
  | .reserveGuarded =>
    match h.reserve? with
    | some (i, h) => { h with guarded := h.guarded ++ [i] }
    | none => h
  | .finish i => h.finish i
  | .drop i => if i ∈ h.guarded then { h.finish i with guarded := h.guarded.erase i } else h

def run (h : History) (events : List Event) : History := events.foldl step h

/-- What is finished was given out before and is not finished yet. -/
def Allows (h : History) : Event → Prop
  | .finish i => i ∈ h.given ∧ i ∉ h.finished
  | .drop i => i ∈ h.guarded → i ∉ h.finished
  | _ => True

/-- No number is finished before it is given out, and none twice. -/
def Proper (h : History) : List Event → Prop
  | [] => True
  | e :: events => h.Allows e ∧ (h.step e).Proper events

/-- The watermark keeps account of all numbers. -/
structure Accounted (h : History) : Prop where
  given : h.given.map (·.val) = List.range h.watermark.reserved
  guarded : ∀ i ∈ h.guarded, i ∈ h.given
  once : h.finished.Nodup
  finished_given : ∀ i ∈ h.finished, i ∈ h.given
  finished : ∀ n, h.watermark.Finished n ↔ ∃ i ∈ h.finished, i.val = n
  waiting : ∀ n ∈ h.watermark.pending, h.watermark.visible < n
  closed : h.watermark.closed = h.finished.length

variable {h h' : History} {i : RecordId}

theorem reserve?_eq_some (hr : h.reserve? = some (i, h')) : i.val = h.watermark.reserved ∧
    h' = { h with
      watermark := { h.watermark with reserved := h.watermark.reserved + 1 }
      given := h.given ++ [i] } := by
  obtain ⟨⟨j, w⟩, hw, he⟩ := Option.map_eq_some_iff.mp hr
  obtain ⟨rfl, rfl⟩ := Prod.mk.inj he
  obtain ⟨hj, rfl⟩ := (Watermark.reserve?_eq_some_iff _).mp hw
  exact ⟨hj, rfl⟩

namespace Accounted

theorem empty : Accounted {} where
  given := rfl
  guarded _ hi := absurd hi List.not_mem_nil
  once := List.nodup_nil
  finished_given _ hi := absurd hi List.not_mem_nil
  finished n := by simp [Watermark.Finished, show (∅ : Watermark).visible = 0 from rfl,
    show (∅ : Watermark).pending = ∅ from rfl]
  waiting n hn := absurd hn OrderedSet.not_mem_empty
  closed := rfl

section

variable (ha : h.Accounted)
include ha

theorem reserve (hr : h.reserve? = some (i, h')) : h'.Accounted := by
  obtain ⟨hi, rfl⟩ := reserve?_eq_some hr
  exact {
    given := by rw [List.map_append, ha.given, List.range_succ, List.map_singleton, hi]
    guarded := fun j hj => List.mem_append_left _ (ha.guarded j hj)
    once := ha.once
    finished_given := fun j hj => List.mem_append_left _ (ha.finished_given j hj)
    finished := ha.finished
    waiting := ha.waiting
    closed := ha.closed }

theorem guard {guarded : List RecordId} (hg : ∀ j ∈ guarded, j ∈ h.given) :
    ({ h with guarded } : History).Accounted :=
  { ha with guarded := hg }

theorem not_finished (hi : i ∉ h.finished) : ¬h.watermark.Finished i.val := by
  rw [ha.finished]
  rintro ⟨j, hj, hji⟩
  exact hi (RecordId.eq_of_val_eq hji ▸ hj)

theorem finish (hg : i ∈ h.given) (hi : i ∉ h.finished) : (h.finish i).Accounted where
  given := ha.given
  guarded := ha.guarded
  once := (List.nodup_append).mpr ⟨ha.once, List.nodup_singleton i, fun j hj k hk => by
    rintro rfl
    exact hi (List.mem_singleton.mp hk ▸ hj)⟩
  finished_given j hj := by
    rcases List.mem_append.mp hj with hj | hj
    · exact ha.finished_given j hj
    · exact List.mem_singleton.mp hj ▸ hg
  finished n := by
    rw [History.finish, finished_finish, ha.finished]
    simp only [List.mem_append, List.mem_singleton, or_and_right, exists_or, exists_eq_left]
    rw [or_comm, eq_comm]
  waiting := by
    refine waiting_finish h.watermark ?_ ha.waiting
    exact Nat.not_lt.mp fun hlt => ha.not_finished hi (.inl hlt)
  closed := by
    rw [History.finish, closed_finish h.watermark (ha.not_finished hi), ha.closed, List.length_append,
      List.length_singleton]

theorem step {e : Event} (hallow : h.Allows e) : (h.step e).Accounted := by
  cases e with
  | reserve =>
    rw [History.step]
    split
    · rename_i hr
      exact ha.reserve hr
    · exact ha
  | reserveGuarded =>
    rw [History.step]
    split
    · rename_i i h' hr
      refine (ha.reserve hr).guard fun j hj => ?_
      obtain ⟨-, rfl⟩ := reserve?_eq_some hr
      rcases List.mem_append.mp hj with hj | hj
      · exact List.mem_append_left _ (ha.guarded j hj)
      · exact List.mem_append_right _ hj
    · exact ha
  | finish i => exact ha.finish hallow.1 hallow.2
  | drop i =>
    rw [History.step]
    split
    · rename_i hi
      exact (ha.finish (ha.guarded i hi) (hallow hi)).guard fun j hj => ha.guarded j (List.mem_of_mem_erase hj)
    · exact ha

theorem run {events : List Event} (hp : h.Proper events) : (h.run events).Accounted := by
  induction events generalizing h with
  | nil => exact ha
  | cons e events ih => exact ih (ha.step hp.1) hp.2

theorem mem_given_iff : i ∈ h.given ↔ i.val < h.watermark.reserved := by
  rw [← List.mem_range, ← ha.given, List.mem_map]
  constructor
  · exact fun hi => ⟨i, hi, rfl⟩
  · rintro ⟨j, hj, hji⟩
    exact RecordId.eq_of_val_eq hji ▸ hj

theorem length_given : h.given.length = h.watermark.reserved := by
  have hlength := congrArg List.length ha.given
  rwa [List.length_map, List.length_range] at hlength

theorem exists_given {n : Nat} (hn : n < h.watermark.reserved) : ∃ i ∈ h.given, i.val = n := by
  rw [← List.mem_range, ← ha.given, List.mem_map] at hn
  exact hn

theorem not_finished_visible : ¬h.watermark.Finished h.watermark.visible := by
  rintro (hv | hv)
  · exact absurd hv (lt_irrefl _)
  · exact absurd (ha.waiting _ hv) (lt_irrefl _)

theorem visible_eq_length (hall : ∀ i ∈ h.given, i ∈ h.finished) :
    h.watermark.visible = h.given.length := by
  have hclosed : ∀ n, h.watermark.Finished n ↔ n < h.watermark.reserved := by
    intro n
    rw [ha.finished]
    constructor
    · rintro ⟨i, hi, rfl⟩
      exact ha.mem_given_iff.mp (ha.finished_given i hi)
    · intro hn
      obtain ⟨i, hi, rfl⟩ := ha.exists_given hn
      exact ⟨i, hall i hi, rfl⟩
  rw [(Watermark.visible_eq_reserved _ hclosed ha.waiting).1, ha.length_given]

theorem isLeast_visible (hopen : ∃ i ∈ h.given, i ∉ h.finished) :
    IsLeast {n | ∃ i ∈ h.given, i ∉ h.finished ∧ i.val = n} h.watermark.visible := by
  have hlower {i : RecordId} (hi : i ∉ h.finished) : h.watermark.visible ≤ i.val :=
    Nat.not_lt.mp fun hlt => ha.not_finished hi (.inl hlt)
  refine ⟨?_, ?_⟩
  · obtain ⟨i, hi, hif⟩ := hopen
    obtain ⟨j, hj, hjv⟩ := ha.exists_given ((hlower hif).trans_lt (ha.mem_given_iff.mp hi))
    refine ⟨j, hj, fun hjf => ha.not_finished_visible ?_, hjv⟩
    exact (ha.finished _).mpr ⟨j, hjf, hjv⟩
  · rintro n ⟨i, -, hif, rfl⟩
    exact hlower hif

theorem mem_pending_iff (n : Nat) :
    n ∈ h.watermark.pending ↔ h.watermark.visible < n ∧ ∃ i ∈ h.finished, i.val = n := by
  rw [← ha.finished]
  constructor
  · exact fun hn => ⟨ha.waiting n hn, .inr hn⟩
  · rintro ⟨hlt, hv | hn⟩
    · exact absurd hv (Nat.lt_asymm hlt)
    · exact hn

theorem isVisible_iff (n : Nat) : h.watermark.isVisible n = true ↔
    ∀ m ≤ n, ∃ i ∈ h.given, i ∈ h.finished ∧ i.val = m := by
  rw [isVisible, decide_eq_true_eq]
  constructor
  · intro hn m hm
    obtain ⟨i, hi, him⟩ := (ha.finished m).mp (.inl (hm.trans_lt hn))
    exact ⟨i, ha.finished_given i hi, hi, him⟩
  · intro hall
    by_contra hn
    obtain ⟨i, -, hi, hiv⟩ := hall _ (Nat.not_lt.mp hn)
    exact ha.not_finished_visible ((ha.finished _).mpr ⟨i, hi, hiv⟩)

theorem given_nodup : h.given.Nodup := by
  have hnodup : (h.given.map (·.val)).Nodup := ha.given ▸ List.nodup_range
  exact hnodup.of_map _

theorem inFlight_eq : h.watermark.inFlight = (h.given.filter (· ∉ h.finished)).length := by
  have hperm : (h.given.filter (· ∈ h.finished)).Perm h.finished := by
    refine (List.perm_ext_iff_of_nodup (ha.given_nodup.filter _) ha.once).mpr fun i => ?_
    rw [List.mem_filter, decide_eq_true_eq]
    exact and_iff_right_of_imp (ha.finished_given i)
  have hsplit : h.given.length = _ := List.length_eq_length_filter_add (l := h.given) (· ∈ h.finished)
  have hclosed : h.watermark.visible + h.watermark.pending.size = h.finished.length := ha.closed
  rw [inFlight, hclosed, ← ha.length_given, hsplit, hperm.length_eq, Nat.add_sub_cancel_left]
  simp only [decide_not]

end
end Accounted

theorem visible_le_step (h : History) (e : Event) : h.watermark.visible ≤ (h.step e).watermark.visible := by
  have hfinish (i : RecordId) : h.watermark.visible ≤ (h.finish i).watermark.visible := le_advance _ _
  have hreserve {i : RecordId} {h' : History} (hr : h.reserve? = some (i, h')) :
      h.watermark.visible ≤ h'.watermark.visible := by
    obtain ⟨-, rfl⟩ := reserve?_eq_some hr
    exact Nat.le_refl _
  cases e with
  | reserve =>
    rw [step]
    split
    · rename_i hr
      exact hreserve hr
    · exact Nat.le_refl _
  | reserveGuarded =>
    rw [step]
    split
    · rename_i hr
      have hle := hreserve hr
      exact hle
    · exact Nat.le_refl _
  | finish i => exact hfinish i
  | drop i =>
    rw [step]
    split
    · exact hfinish i
    · exact Nat.le_refl _

theorem visible_le_run (h : History) (events : List Event) :
    h.watermark.visible ≤ (h.run events).watermark.visible := by
  induction events generalizing h with
  | nil => exact Nat.le_refl _
  | cons e events ih => exact (h.visible_le_step e).trans (ih (h.step e))

/-- However numbers are given out and finished, none of them twice, the mark stands at the least number that is not
finished yet, or behind all numbers if there is none. The finished numbers above it are those that wait; a number
can be seen if it and all below it are finished; what is in flight are the numbers that are not finished; and the
mark never goes back. -/
theorem run_marks_least_unfinished (events : List Event) (hp : Proper {} events) :
    let h := run {} events
    let w := h.watermark
    h.given.map (·.val) = List.range w.reserved ∧
    ((∀ i ∈ h.given, i ∈ h.finished) → w.visible = h.given.length) ∧
    ((∃ i ∈ h.given, i ∉ h.finished) →
      IsLeast {n | ∃ i ∈ h.given, i ∉ h.finished ∧ i.val = n} w.visible) ∧
    (∀ n, n ∈ w.pending ↔ w.visible < n ∧ ∃ i ∈ h.finished, i.val = n) ∧
    (∀ n, w.isVisible n = true ↔ ∀ m ≤ n, ∃ i ∈ h.given, i ∈ h.finished ∧ i.val = m) ∧
    w.inFlight = (h.given.filter (· ∉ h.finished)).length ∧
    ∀ later, w.visible ≤ (h.run later).watermark.visible := by
  intro h w
  have ha : h.Accounted := Accounted.empty.run hp
  exact ⟨ha.given, ha.visible_eq_length, ha.isLeast_visible, ha.mem_pending_iff, ha.isVisible_iff, ha.inFlight_eq,
    h.visible_le_run⟩

/-- Of three numbers the first is finished last, so the mark waits for it and then moves over all three. -/
theorem mark_waits_for_first :
    let one : RecordId := ⟨1, by decide⟩
    let two : RecordId := ⟨2, by decide⟩
    let events : List Event := [.reserve, .reserveGuarded, .reserveGuarded, .drop two, .drop one]
    let h := run {} events
    let h' := run {} (events ++ [.finish .min])
    Proper {} events ∧ IsLeast {n | ∃ i ∈ h.given, i ∉ h.finished ∧ i.val = n} h.watermark.visible ∧
      h.watermark.visible = 0 ∧ h.watermark.inFlight = 1 ∧
      Proper {} (events ++ [.finish .min]) ∧ h'.watermark.visible = h'.given.length ∧ h'.given.length = 3 := by
  intro one two events h h'
  have hp : Proper {} events :=
    ⟨trivial, trivial, trivial, fun _ => by decide, fun _ => by decide, trivial⟩
  have hp' : Proper {} (events ++ [.finish .min]) :=
    ⟨trivial, trivial, trivial, fun _ => by decide, fun _ => by decide, ⟨by decide, by decide⟩, trivial⟩
  obtain ⟨-, -, hleast, -, -, hinFlight, -⟩ := run_marks_least_unfinished events hp
  obtain ⟨-, hall, -⟩ := run_marks_least_unfinished _ hp'
  exact ⟨hp, hleast ⟨.min, by decide, by decide⟩, by decide, hinFlight, hp', hall (by decide), by decide⟩

end History
end Watermark
end FlightTrace
