import FlightTrace.Proofs.Snapshots

/-! Queries of a table on which appends were made one after the other. No bucket is held then and every
number is finished, so a query finds the traces on its path and in its range, sorted by time; those of one
time stay in the order in which they were appended. -/
namespace FlightTrace

/-- What a query is to give for the traces that were appended: those that match, sorted by time, with those
of one time in the order of arrival. -/
def Trace.matching (rs : List Trace) (range : TimeRange) (path : AccessPath) : List Trace :=
  (rs.filter fun r => path.matchesTrace r && range.contains r.time).mergeSort (Ordered.leOn Trace.time)

theorem Trace.mem_matching {rs : List Trace} {range : TimeRange} {path : AccessPath} {r : Trace} :
    r ∈ Trace.matching rs range path ↔
      r ∈ rs ∧ path.matchesTrace r = true ∧ range.contains r.time = true := by
  rw [matching, List.mem_mergeSort, List.mem_filter, Bool.and_eq_true]

namespace Interleaving

/-- An append has ended if it has committed or given up all that it held. -/
def Stage.Ended (g : Stage) : Prop := (∃ i, g = .committed i) ∨ ∃ o left, g = .undoing o [] left

namespace State

variable {σ σ' : State} {i : RecordId} {r : Trace} {range : TimeRange} {path : AccessPath}

/-- A query of buckets that nobody holds gives the committed traces below the mark that match, unless it is found
cancelled while it examines the keys in the range. -/
theorem Sound.query_cases (h : σ.Sound)
    (hfree : ∀ s ∈ σ.tables.scanned range path, (σ.tables.bucketAt s).held = false)
    (cancelled : Nat → Bool) (hc : cancelled 0 = false) :
    let n := ((σ.tables.keysOn path).filter fun k => range.contains k.time).length
    ((σ.tables.beginScan cancelled).Interrupted 0 n ∧
      σ.tables.query path range cancelled = .error .cancelled) ∨
    (¬(σ.tables.beginScan cancelled).Interrupted 0 n ∧
      σ.tables.query path range cancelled = .ok (σ.tables.resolve (σ.snapshot range path))) := by
  intro n
  rw [TraceTables.query, hc, if_neg Bool.false_ne_true, TraceTables.scan_eq h.time_sound hfree]
  rcases Index.Scan.foldl_examine (σ.tables.beginScan cancelled)
      ((σ.tables.keysOn path).filter fun k => range.contains k.time) (p := {}) rfl
    with ⟨hi, hstop⟩ | ⟨hi, hall⟩
  · rw [Nat.zero_add] at hi
    exact .inl ⟨hi, by simp only [hstop]⟩
  · rw [Nat.zero_add] at hi
    rw [show _ ++ _ = _ from Run.filter_keysOn .refl h range path] at hall
    exact .inr ⟨hi, by simp only [hall]⟩

theorem Sound.free (h : σ.Sound) (hended : ∀ a ∈ σ.appends, a.stage.Ended) (s : Slot) :
    (σ.tables.bucketAt s).held = false := by
  rw [Bool.eq_false_iff]
  intro hs
  obtain ⟨a, ha, d, hd, -⟩ := (h.held s).mp hs
  rcases hended a ha with ⟨i, hg⟩ | ⟨o, left, hg⟩ <;> (rw [hg] at hd; cases hd)

theorem Sound.visible_eq_reserved (h : σ.Sound) (hended : ∀ a ∈ σ.appends, a.stage.Ended) :
    σ.tables.watermark.visible = σ.tables.watermark.reserved := by
  refine (Watermark.visible_eq_reserved _ (fun n => ?_) h.waiting).1
  rw [h.finished, h.numbered]
  refine exists_congr fun a => and_congr_right fun ha => ?_
  rcases hended a ha with ⟨i, hg⟩ | ⟨o, left, hg⟩ <;> (rw [hg]; exact Iff.rfl)

theorem Sound.lt_visible (h : σ.Sound) (hended : ∀ a ∈ σ.appends, a.stage.Ended) (hc : (i, r) ∈ σ.committed) :
    i.val < σ.tables.watermark.visible := by
  rw [h.visible_eq_reserved hended]
  exact (h.numbered i.val).mpr ⟨_, mem_committed.mp hc, i, rfl, rfl⟩

/-- A state between appends, with the committed traces in an order that has those of one time in the order of
their numbers. -/
structure Arranged (σ : State) (ps : List (RecordId × Trace)) : Prop where
  sound : σ.Sound
  ended : ∀ a ∈ σ.appends, a.stage.Ended
  mem_iff : ∀ p, p ∈ ps ↔ p ∈ σ.committed
  ordered : ps.Pairwise fun p q => p.2.time = q.2.time → p.1.val < q.1.val

namespace Arranged

variable {ps : List (RecordId × Trace)}

theorem free (h : σ.Arranged ps) (s : Slot) : (σ.tables.bucketAt s).held = false := h.sound.free h.ended s

theorem visible_eq_reserved (h : σ.Arranged ps) :
    σ.tables.watermark.visible = σ.tables.watermark.reserved := h.sound.visible_eq_reserved h.ended

theorem lt_visible (h : σ.Arranged ps) (hi : (i, r) ∈ ps) : i.val < σ.tables.watermark.visible :=
  h.sound.lt_visible h.ended ((h.mem_iff _).mp hi)

theorem get?_iff (h : σ.Arranged ps) : σ.tables.traces.get? i = some r ↔ (i, r) ∈ ps := by
  rw [h.sound.kept, h.mem_iff, mem_committed]
  constructor
  · rintro ⟨⟨r, g⟩, ha, hk, rfl⟩
    rcases h.ended _ ha with ⟨j, rfl⟩ | ⟨o, left, rfl⟩
    · cases hk
      exact ha
    · cases hk
  · exact fun ha => ⟨_, ha, rfl, rfl⟩

theorem filter_keysOn (h : σ.Arranged ps) (range : TimeRange) (path : AccessPath) :
    (σ.tables.keysOn path).filter (fun k => range.contains k.time) = σ.snapshot range path := by
  rw [← Run.filter_keysOn .refl h.sound range path, eq_comm, List.filter_eq_self]
  intro k hk
  obtain ⟨a, ha, hi, -, -⟩ := h.sound.mem_keysOn_iff.mp (List.mem_filter.mp hk).1
  rcases h.ended a ha with ⟨i, hg⟩ | ⟨o, left, hg⟩
  · have hki : k.id = i := by
      have hid := Stage.id?_of_indexed hi
      rw [hg] at hid
      exact (Option.some.inj hid).symm
    have ha : (k.id, a.record) ∈ ps := by
      rw [h.mem_iff, mem_committed, hki, ← hg]
      exact ha
    exact decide_eq_true (h.lt_visible ha)
  · rw [hg] at hi
    cases hi

theorem sorted_ascending (h : σ.Arranged ps) (f : RecordId × Trace → Bool) :
    ((ps.filter f).mergeSort (Ordered.leOn fun p => p.2.time)).Pairwise
      fun p q => compare (⟨p.2.time, p.1⟩ : Index.Key) ⟨q.2.time, q.1⟩ = .lt := by
  refine (Ordered.pairwise_mergeSort_stable (Ordered.leOn_trans _) (Ordered.leOn_total _)
    (h.ordered.filter f)).imp fun {p q} hpq => ?_
  obtain ⟨hle, hlt⟩ := hpq
  rw [Index.Key.compare_eq]
  simp only [Ordered.leOn] at hle hlt ⊢
  cases hc : compare p.2.time q.2.time with
  | lt => rfl
  | eq =>
    rw [Std.OrientedCmp.eq_symm hc] at hlt
    exact Nat.compare_eq_lt.mpr (hlt rfl (Std.LawfulEqOrd.eq_of_compare hc))
  | gt =>
    rw [hc] at hle
    cases hle

theorem snapshot_eq (h : σ.Arranged ps) (range : TimeRange) (path : AccessPath) : σ.snapshot range path =
    ((ps.filter fun p => path.matchesTrace p.2 && range.contains p.2.time).mergeSort
      (Ordered.leOn fun p => p.2.time)).map fun p => ⟨p.2.time, p.1⟩ := by
  refine Ordered.eq_of_ascending_compare ?_ (List.pairwise_map.mpr (h.sorted_ascending _)) fun k => ?_
  · rw [← h.filter_keysOn]
    exact (TraceTables.keysOn_ascending h.sound.time_sound path).filter _
  · rw [mem_snapshot]
    simp only [List.mem_map, List.mem_mergeSort, List.mem_filter, Bool.and_eq_true]
    constructor
    · rintro ⟨r, hc, -, hm, hr, ht⟩
      exact ⟨(k.id, r), ⟨(h.mem_iff _).mpr hc, hm, ht ▸ hr⟩, by rw [ht]⟩
    · rintro ⟨⟨i, r⟩, ⟨hc, hm, hr⟩, rfl⟩
      exact ⟨r, (h.mem_iff _).mp hc, h.lt_visible hc, hm, hr, rfl⟩

theorem resolve_snapshot (h : σ.Arranged ps) (range : TimeRange) (path : AccessPath) :
    σ.tables.resolve (σ.snapshot range path) = Trace.matching (ps.map (·.2)) range path := by
  have hget : ∀ p ∈ (ps.filter fun p => path.matchesTrace p.2 && range.contains p.2.time).mergeSort
      (Ordered.leOn fun p => p.2.time), σ.tables.traces.get? p.1 = some p.2 := by
    intro p hp
    exact h.get?_iff.mpr (List.mem_filter.mp (List.mem_mergeSort.mp hp)).1
  rw [h.snapshot_eq, TraceTables.resolve, List.filterMap_map, Trace.matching, List.filter_map,
    ← Ordered.map_mergeSort Trace.time, ← List.filterMap_eq_map]
  exact List.filterMap_congr hget

theorem length_snapshot (h : σ.Arranged ps) (range : TimeRange) (path : AccessPath) :
    (σ.snapshot range path).length = (Trace.matching (ps.map (·.2)) range path).length := by
  rw [h.snapshot_eq, Trace.matching, List.filter_map, List.length_map, List.length_mergeSort,
    List.length_mergeSort, List.length_map]
  rfl

/-- A query gives the traces that match, unless it is found cancelled while it examines their keys. -/
theorem query_cases (h : σ.Arranged ps) (range : TimeRange) (path : AccessPath) (cancelled : Nat → Bool)
    (hc : cancelled 0 = false) :
    ((σ.tables.beginScan cancelled).Interrupted 0 (Trace.matching (ps.map (·.2)) range path).length ∧
      σ.tables.query path range cancelled = .error .cancelled) ∨
    (¬(σ.tables.beginScan cancelled).Interrupted 0 (Trace.matching (ps.map (·.2)) range path).length ∧
      σ.tables.query path range cancelled = .ok (Trace.matching (ps.map (·.2)) range path)) := by
  have hfree : ∀ s ∈ σ.tables.scanned range path, (σ.tables.bucketAt s).held = false := fun s _ => h.free s
  have hquery := h.sound.query_cases hfree cancelled hc
  rwa [h.filter_keysOn, h.length_snapshot, h.resolve_snapshot] at hquery

theorem query_eq (h : σ.Arranged ps) (range : TimeRange) (path : AccessPath) :
    σ.tables.query path range (fun _ => false) = .ok (Trace.matching (ps.map (·.2)) range path) := by
  rcases h.query_cases range path (fun _ => false) rfl with ⟨hi, -⟩ | ⟨-, hq⟩
  · exact absurd hi (Index.Scan.not_interrupted _ (fun _ => rfl) _ _)
  · exact hq

end Arranged

/-- A state between appends: all have ended, and their numbers are in the order of the appends. -/
structure Settled (σ : State) : Prop where
  sound : σ.Sound
  ended : ∀ a ∈ σ.appends, a.stage.Ended
  ordered : σ.committed.Pairwise fun p q => p.1.val < q.1.val

def appended (σ : State) : List Trace := σ.committed.map (·.2)

namespace Settled

theorem start (settings : Settings) : (State.start settings).Settled :=
  ⟨start_sound settings, fun _ ha => absurd ha List.not_mem_nil, List.Pairwise.nil⟩

theorem arranged (h : σ.Settled) : σ.Arranged σ.committed where
  sound := h.sound
  ended := h.ended
  mem_iff _ := Iff.rfl
  ordered := by
    refine h.ordered.imp fun {p q} hlt _ => ?_
    exact hlt

theorem query_cases (h : σ.Settled) (range : TimeRange) (path : AccessPath) (cancelled : Nat → Bool)
    (hc : cancelled 0 = false) :
    ((σ.tables.beginScan cancelled).Interrupted 0 (Trace.matching σ.appended range path).length ∧
      σ.tables.query path range cancelled = .error .cancelled) ∨
    (¬(σ.tables.beginScan cancelled).Interrupted 0 (Trace.matching σ.appended range path).length ∧
      σ.tables.query path range cancelled = .ok (Trace.matching σ.appended range path)) :=
  h.arranged.query_cases range path cancelled hc

theorem query_eq (h : σ.Settled) (range : TimeRange) (path : AccessPath) :
    σ.tables.query path range (fun _ => false) = .ok (Trace.matching σ.appended range path) :=
  h.arranged.query_eq range path

theorem exists_of_found (h : σ.Settled) {k : Index.Key}
    (hk : k ∈ (σ.tables.scan (σ.tables.beginScan fun _ => false) range {} path).found) :
    ∃ r ∈ σ.appended, σ.tables.traces.get? k.id = some r := by
  rw [TraceTables.scan_eq h.sound.time_sound fun s _ => h.arranged.free s, h.arranged.filter_keysOn] at hk
  rcases Index.Scan.foldl_examine (σ.tables.beginScan fun _ => false) (σ.snapshot range path) (p := {}) rfl
    with ⟨hi, -⟩ | ⟨-, hall⟩
  · exact absurd hi (Index.Scan.not_interrupted _ (fun _ => rfl) _ _)
  · rw [hall] at hk
    obtain ⟨r, hr, -⟩ := mem_snapshot.mp (List.mem_filter.mp hk).1
    exact ⟨r, List.mem_map.mpr ⟨_, hr, rfl⟩, h.arranged.get?_iff.mpr hr⟩

end Settled
end State

variable {t t' : TraceTables} {as : List Append} {r : Trace} {i : RecordId}

theorem Stage.ended_ofResult {κ : Type} (o : Option RecordId) (x : Except (Failure κ) RecordId) :
    (Stage.ofResult o x).Ended := by
  cases x with
  | ok i => exact .inl ⟨i, rfl⟩
  | error f => cases f <;> exact .inr ⟨_, _, rfl⟩

theorem id_of_start (h : t.start r = .ok (i, t')) : i.val = t.watermark.reserved := by
  obtain ⟨t₁, hlock, hreserve⟩ := TraceTables.start_eq_ok_iff.mp h
  obtain ⟨w, hw, -⟩ := TraceTables.reserve?_eq_some_iff.mp hreserve
  rw [((Watermark.reserve?_eq_some_iff _).mp hw).1, (TraceTables.locks_framed _ hlock).watermark]

theorem id_of_appendWith {κ σ : Type} {hook : Hook κ (σ × TraceTables)} {s s' : σ}
    (h : t.appendWith hook r s = (.ok i, s', t')) : i.val = t.watermark.reserved := by
  rw [TraceTables.appendWith] at h
  cases hstart : t.start r with
  | error e =>
    rw [hstart] at h
    cases h
  | ok p =>
    obtain ⟨j, t₁⟩ := p
    rw [hstart] at h
    simp only at h
    split at h
    · cases h
      exact id_of_start hstart
    · cases h
    · cases h

/-- An append on a table between appends leaves it between appends, with one more trace if it succeeds. -/
theorem State.Settled.appendWith {κ σ : Type} {hook : Hook κ σ} {s s' : σ}
    {x : Except (Failure κ) RecordId} (hs : Settled ⟨t, as⟩)
    (h : t.appendWith hook.beside r s = (x, s', t')) :
    ∃ o, Run ⟨t, as⟩ ⟨t', as ++ [⟨r, .ofResult o x⟩]⟩ ∧ Settled ⟨t', as ++ [⟨r, .ofResult o x⟩]⟩ := by
  obtain ⟨o, hrun⟩ := run_appendWith as hs.sound.listed h
  refine ⟨o, hrun, hrun.sound hs.sound, fun a ha => ?_, ?_⟩
  · rcases List.mem_append.mp ha with ha | ha
    · exact hs.ended a ha
    · rw [List.mem_singleton.mp ha]
      exact Stage.ended_ofResult o x
  · rw [State.committed, List.filterMap_append]
    refine List.pairwise_append.mpr ⟨hs.ordered, ?_, ?_⟩
    · cases x with
      | ok i => exact List.pairwise_singleton _ _
      | error f => cases f <;> exact List.Pairwise.nil
    · cases x with
      | ok i =>
        intro p hp q hq
        rw [List.mem_singleton.mp hq, id_of_appendWith h, ← hs.arranged.visible_eq_reserved]
        exact hs.arranged.lt_visible hp
      | error f =>
        intro p hp q hq
        cases f <;> cases hq

def added {κ : Type} (r : Trace) : Except (Failure κ) RecordId → List Trace
  | .ok _ => [r]
  | .error _ => []

theorem State.appended_append {κ : Type} (t t' : TraceTables) (as : List Append) (r : Trace)
    (o : Option RecordId) (x : Except (Failure κ) RecordId) :
    State.appended ⟨t', as ++ [⟨r, .ofResult o x⟩]⟩ = State.appended ⟨t, as⟩ ++ added r x := by
  simp only [State.appended, State.committed, List.filterMap_append, List.map_append]
  cases x with
  | ok i => rfl
  | error f => cases f <;> rfl

end Interleaving

namespace TraceTables

open Interleaving

variable {t : TraceTables} {r : Trace}

/-- An append starts if nobody holds a bucket of its trace and a number is left. -/
theorem exists_start (hfree : ∀ d s, Slot.of? t.time.width r d = some s → (t.bucketAt s).held = false)
    (hleft : t.watermark.reserved < UInt64.size) :
    ∃ i t', t.start r = .ok (i, t') ∧ t'.watermark.reserved = t.watermark.reserved + 1 := by
  obtain ⟨t₁, hlock⟩ := exists_locks Dimension.all (by decide) fun d _ => hfree d
  have hmark : t₁.watermark = t.watermark := (locks_framed _ hlock).watermark
  have hreserve : t₁.watermark.reserve? =
      some (⟨t.watermark.reserved, hleft⟩, { t₁.watermark with reserved := t₁.watermark.reserved + 1 }) :=
    (Watermark.reserve?_eq_some_iff _).mpr ⟨by rw [hmark], rfl⟩
  exact ⟨_, _, start_eq_ok_iff.mpr ⟨t₁, hlock, reserve?_eq_some_iff.mpr ⟨_, hreserve, rfl⟩⟩, by rw [hmark]⟩

/-- It succeeds if its hook agrees. -/
theorem exists_appendWith {κ σ : Type} {hook : Hook κ σ} {s s' : σ}
    (hfree : ∀ d s, Slot.of? t.time.width r d = some s → (t.bucketAt s).held = false)
    (hleft : t.watermark.reserved < UInt64.size) (hagree : hook s = (.ok (), s')) :
    ∃ i t', t.appendWith hook.beside r s = (.ok i, s', t') ∧
      t'.watermark.reserved = t.watermark.reserved + 1 := by
  obtain ⟨i, t₁, hstart, hreserved⟩ := exists_start hfree hleft
  refine ⟨i, t₁.commit i r, ?_, hreserved⟩
  rw [appendWith, hstart]
  simp only [Hook.beside, hagree]

/-- The state of the hooks, the table, and the traces whose append has succeeded. -/
structure History (σ : Type) where
  state : σ
  tables : TraceTables
  appended : List Trace

namespace History

variable {κ σ : Type}

def start (settings : Settings) (state : σ) : History σ := ⟨state, .ofSettings settings, []⟩

def step (h : History σ) (s : Trace × Hook κ σ) : History σ :=
  match h.tables.appendWith s.2.beside s.1 h.state with
  | (.ok _, state, tables) => ⟨state, tables, h.appended ++ [s.1]⟩
  | (.error _, state, tables) => ⟨state, tables, h.appended⟩

def run (h : History σ) (steps : List (Trace × Hook κ σ)) : History σ := steps.foldl step h

/-- The tables are those of a state between appends that has appended the same traces. -/
def Settled (h : History σ) : Prop := ∃ as, State.Settled ⟨h.tables, as⟩ ∧
  State.appended ⟨h.tables, as⟩ = h.appended

theorem step_settled {h : History σ} (hs : h.Settled) (s : Trace × Hook κ σ) : (h.step s).Settled := by
  obtain ⟨as, hs, happ⟩ := hs
  rw [step]
  cases ha : h.tables.appendWith s.2.beside s.1 h.state with
  | mk x p =>
    obtain ⟨state, tables⟩ := p
    obtain ⟨o, -, hs'⟩ := hs.appendWith ha
    have happ' := State.appended_append h.tables tables as s.1 o x
    rw [happ] at happ'
    cases x with
    | ok i => exact ⟨_, hs', happ'⟩
    | error f => exact ⟨_, hs', happ'.trans (List.append_nil _)⟩

theorem run_settled {h : History σ} (hs : h.Settled) (steps : List (Trace × Hook κ σ)) :
    (h.run steps).Settled := by
  induction steps generalizing h with
  | nil => exact hs
  | cons s steps ih => exact ih (step_settled hs s)

theorem Settled.exists_step {h : History σ} (hs : h.Settled) {s : Trace × Hook κ σ} {state : σ}
    (hleft : h.tables.watermark.reserved < UInt64.size) (hagree : s.2 h.state = (.ok (), state)) :
    ∃ tables, h.step s = ⟨state, tables, h.appended ++ [s.1]⟩ ∧
      tables.watermark.reserved = h.tables.watermark.reserved + 1 := by
  obtain ⟨as, hs, -⟩ := hs
  obtain ⟨i, tables, happend, hreserved⟩ := exists_appendWith (fun d slot _ => hs.arranged.free slot) hleft hagree
  exact ⟨tables, by rw [step, happend], hreserved⟩

/-- Appends one after the other succeed as long as their hooks agree and numbers are left. -/
theorem Settled.appended_run {h : History σ} (hs : h.Settled) (steps : List (Trace × Hook κ σ))
    (hleft : h.tables.watermark.reserved + steps.length ≤ UInt64.size)
    (hagree : ∀ s ∈ steps, ∀ state, (s.2 state).1 = .ok ()) :
    (h.run steps).appended = h.appended ++ steps.map (·.1) := by
  induction steps generalizing h with
  | nil => exact (List.append_nil _).symm
  | cons s steps ih =>
    rw [List.length_cons] at hleft
    have hs' := step_settled hs s
    have hhook : s.2 h.state = (.ok (), (s.2 h.state).2) := by rw [← hagree s List.mem_cons_self h.state]
    obtain ⟨tables, hstep, hreserved⟩ := hs.exists_step (by omega) hhook
    have hrest : ((h.step s).run steps).appended = (h.step s).appended ++ steps.map (·.1) := by
      refine ih hs' ?_ fun s hs => hagree s (List.mem_cons_of_mem _ hs)
      rw [hstep, hreserved]
      omega
    rw [run, List.foldl_cons, ← run, hrest, hstep, List.append_assoc, List.map_cons, List.singleton_append]

theorem start_settled (settings : Settings) (state : σ) : (start settings state).Settled := ⟨[], .start settings, rfl⟩

/-- Whatever is appended and whichever appends their hooks refuse, each query gives exactly the traces
whose append succeeded and that match, in the order of time and arrival; every key that a scan finds leads to a
trace; and a query by text is one by the callsign that the text spells. -/
theorem queries_are_exact (settings : Settings) (state : σ) (steps : List (Trace × Hook κ σ)) :
    let h := (start settings state).run steps
    (∀ path range, h.tables.query path range (fun _ => false) =
      .ok (Trace.matching h.appended range path)) ∧
    (∀ path range, ∀ k ∈ (h.tables.scan (h.tables.beginScan fun _ => false) range {} path).found,
      ∃ r ∈ h.appended, h.tables.traces.get? k.id = some r) ∧
    (∀ r, r.callsign = none → ∀ c range rs,
      h.tables.query (.callsign c) range (fun _ => false) = .ok rs → r ∉ rs) ∧
    (∀ r, r.squawk = none → ∀ c range rs,
      h.tables.query (.squawk c) range (fun _ => false) = .ok rs → r ∉ rs) ∧
    (∀ text range, (Text.trim text ≠ "" → ∃ c : Callsign, c.text = Text.trim text ∧
        h.tables.queryCallsign text range = h.tables.query (.callsign c) range fun _ => false) ∧
      (Text.trim text = "" → h.tables.queryCallsign text range = .ok [])) := by
  intro h
  obtain ⟨as, hs, happ⟩ : h.Settled := run_settled (start_settled settings state) steps
  have hquery (path : AccessPath) (range : TimeRange) : h.tables.query path range (fun _ => false) =
      .ok (Trace.matching h.appended range path) := happ ▸ hs.query_eq range path
  have hmatches {path : AccessPath} {range : TimeRange} {rs : List Trace} {r : Trace}
      (hq : h.tables.query path range (fun _ => false) = .ok rs) (hr : r ∈ rs) :
      path.matchesTrace r = true := by
    rw [hquery] at hq
    cases hq
    exact (Trace.mem_matching.mp hr).2.1
  refine ⟨hquery, ?_, ?_, ?_, ?_⟩
  · intro path range k hk
    rw [← happ]
    exact hs.exists_of_found hk
  · intro r hr c range rs hq hmem
    have hm := of_decide_eq_true (hmatches hq hmem)
    rw [hr] at hm
    cases hm
  · intro r hr c range rs hq hmem
    have hm := of_decide_eq_true (hmatches hq hmem)
    rw [hr] at hm
    cases hm
  · intro text range
    constructor
    · intro hne
      refine ⟨⟨Text.trim text, Text.trim_trim text, hne⟩, rfl, ?_⟩
      rw [queryCallsign, Callsign.ofText?, dif_neg hne]
    · intro hblank
      rw [queryCallsign, Callsign.ofText?, dif_pos hblank]

namespace Apart

def early : Trace := { time := default, address := ⟨0x4b1901, by decide⟩ }

def late : Trace := { time := ⟨7200, 0, by decide, by decide⟩, address := ⟨0x3c6444, by decide⟩ }

end Apart

open Apart

/-- Two traces are appended, the later one first, and both are found. -/
theorem both_traces_are_found :
    let h := (start {} ()).run [(late, Hook.agree (κ := Empty)), (early, Hook.agree)]
    h.appended = [late, early] ∧
    (∀ path range, h.tables.query path range (fun _ => false) = .ok (Trace.matching [late, early] range path)) ∧
    h.tables.query .time .all (fun _ => false) = .ok [early, late] := by
  have hsorted : ((start {} ()).run [(late, Hook.agree (κ := Empty)), (early, Hook.agree)]).tables.query .time .all
      (fun _ => false) = .ok [early, late] := by decide +kernel
  intro h
  have happended : h.appended = [late, early] :=
    (start_settled {} ()).appended_run [(late, Hook.agree (κ := Empty)), (early, Hook.agree)] (by decide)
      (by simp [Hook.agree])
  obtain ⟨hquery, -⟩ := queries_are_exact {} () [(late, Hook.agree (κ := Empty)), (early, Hook.agree)]
  refine ⟨happended, fun path range => ?_, hsorted⟩
  rw [← happended]
  exact hquery path range

end History
end TraceTables
end FlightTrace
