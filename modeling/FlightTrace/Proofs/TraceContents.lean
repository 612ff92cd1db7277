import FlightTrace.Proofs.Queries

/-! What a reader can learn about a table of traces between two calls. It is told by the settings and by the
traces that were appended, in their order. The numbers of the traces, and appends that failed, do not show. -/
namespace FlightTrace

theorem Index.Keyed.size_eq_of_has {κ : Type} [Ord κ] [Std.TransOrd κ] [Std.LawfulEqOrd κ]
    {x y : Index.Keyed κ} (h : ∀ k, x.has k = y.has k) : x.size = y.size := by
  rw [size, size, OrderedMap.size_eq_length_keys, OrderedMap.size_eq_length_keys,
    OrderedMap.keys_eq_of_contains h]

/-- All sizes are told by the kept traces, by the buckets that are there and by what is in flight. -/
theorem TraceTables.stats_eq_of_hasAt {t t' : TraceTables} (hrecords : t'.traces.size = t.traces.size)
    (hhas : ∀ s, t'.hasAt s = t.hasAt s) (hinFlight : t'.watermark.inFlight = t.watermark.inFlight) :
    t'.stats = t.stats := by
  have haddresses : t'.address.size = t.address.size := Index.Keyed.size_eq_of_has fun a => hhas (.address a)
  have hcallsigns : t'.callsign.size = t.callsign.size := Index.Keyed.size_eq_of_has fun c => hhas (.callsign c)
  have hsquawks : t'.squawk.size = t.squawk.size := Index.Keyed.size_eq_of_has fun c => hhas (.squawk c)
  have hsegments : t'.time.segments.size = t.time.segments.size :=
    Index.Keyed.size_eq_of_has fun n => hhas (.time n)
  rw [stats, stats, hrecords, haddresses, hcallsigns, hsquawks, hsegments, hinFlight]

namespace Interleaving

/-- An append that has committed, or has given up all that it held and removed its idle buckets. -/
def Stage.Cleared (g : Stage) : Prop := (∃ i, g = .committed i) ∨ ∃ o, g = .undoing o [] []

theorem Stage.cleared_ofResult (o : Option RecordId) (x : Except (Failure Empty) RecordId) :
    (Stage.ofResult o x).Cleared := by
  cases x with
  | ok i => exact .inl ⟨i, rfl⟩
  | error f =>
    cases f with
    | error e => exact .inr ⟨o, rfl⟩
    | crash k => exact k.elim

namespace State

variable {σ : State}

theorem Sound.length_le_reserved (h : σ.Sound) {ps : List (RecordId × Trace)}
    (hdistinct : ps.Pairwise fun p q => p.1 ≠ q.1)
    (hnumbered : ∀ p ∈ ps, ∃ a ∈ σ.appends, a.stage.id? = some p.1) :
    ps.length ≤ σ.tables.watermark.reserved := by
  have hnodup : (ps.map fun p => p.1.val).Nodup :=
    List.pairwise_map.mpr (hdistinct.imp fun hne heq => hne (RecordId.eq_of_val_eq heq))
  have hsub : (ps.map fun p => p.1.val) ⊆ List.range σ.tables.watermark.reserved := by
    intro n hn
    obtain ⟨p, hp, rfl⟩ := List.mem_map.mp hn
    obtain ⟨a, ha, hi⟩ := hnumbered p hp
    exact List.mem_range.mpr ((h.numbered _).mpr ⟨a, ha, p.1, hi, rfl⟩)
  have hle := hnodup.length_le_of_subset hsub
  rwa [List.length_range, List.length_map] at hle

theorem Sound.reserved_le (h : σ.Sound) : σ.tables.watermark.reserved ≤ UInt64.size := by
  by_contra hlt
  obtain ⟨a, -, i, -, hi⟩ := (h.numbered UInt64.size).mp (Nat.not_le.mp hlt)
  exact absurd i.lt_size (hi ▸ Nat.lt_irrefl _)

namespace Settled

variable (h : σ.Settled)
include h

/-- A bucket is there just if an appended trace has its key in it. -/
theorem hasAt_iff (hcleared : ∀ a ∈ σ.appends, a.stage.Cleared) (s : Slot) : σ.tables.hasAt s = true ↔
    ∃ r ∈ σ.appended, ∃ d, Slot.of? σ.tables.time.width r d = some s := by
  constructor
  · intro hs
    rcases h.sound.claimed s hs with hk | ⟨a, ha, d, hd, hof⟩
    · obtain ⟨k, hk⟩ := OrderedSet.ne_empty_iff.mp hk
      obtain ⟨⟨r, g⟩, ha, p, hp, hof, -⟩ := (h.sound.indexed s k).mp hk
      rcases hcleared _ ha with ⟨i, rfl⟩ | ⟨o, rfl⟩
      · exact ⟨r, List.mem_map.mpr ⟨_, mem_committed.mpr ha, rfl⟩, p.1, hof⟩
      · cases hp
    · obtain ⟨r, g⟩ := a
      rcases hcleared _ ha with ⟨i, rfl⟩ | ⟨o, rfl⟩
      · exact ⟨r, List.mem_map.mpr ⟨_, mem_committed.mpr ha, rfl⟩, d, hof⟩
      · cases hd
  · rintro ⟨r, hr, d, hof⟩
    obtain ⟨⟨i, r⟩, hi, rfl⟩ := List.mem_map.mp hr
    have hk : ⟨r.time, i⟩ ∈ (σ.tables.bucketAt s).keys := (h.sound.indexed s _).mpr
      ⟨_, mem_committed.mp hi, (d, i), List.mem_map.mpr ⟨d, d.mem_all, rfl⟩, hof, rfl⟩
    exact TraceTables.hasAt_of_mem hk

theorem size_eq : σ.tables.size = σ.appended.length := by
  have hids : σ.tables.traces.keys = σ.committed.map (·.1) := by
    refine Ordered.eq_of_ascending_compare OrderedMap.keys_ascending ?_ fun i => ?_
    · exact List.pairwise_map.mpr (h.ordered.imp Nat.compare_eq_lt.mpr)
    · rw [OrderedMap.mem_keys_iff, OrderedMap.contains, Option.isSome_iff_exists, List.mem_map]
      constructor
      · rintro ⟨r, hr⟩
        exact ⟨(i, r), h.arranged.get?_iff.mp hr, rfl⟩
      · rintro ⟨⟨i, r⟩, hi, rfl⟩
        exact ⟨r, h.arranged.get?_iff.mpr hi⟩
  rw [TraceTables.size, OrderedMap.size_eq_length_keys, hids, List.length_map, appended, List.length_map]

theorem length_le_reserved : σ.appended.length ≤ σ.tables.watermark.reserved := by
  rw [appended, List.length_map]
  exact h.sound.length_le_reserved h.sound.committed_pairwise fun p hp => ⟨_, mem_committed.mp hp, rfl⟩

theorem inFlight_eq_zero : σ.tables.watermark.inFlight = 0 := by
  rw [Watermark.inFlight, h.arranged.visible_eq_reserved]
  omega

end Settled
end State
end Interleaving

namespace TraceTables

open Interleaving

/-- A table between two calls: with these settings, after the appends of these traces and any others that
failed. -/
def Contains (t : TraceTables) (settings : Settings) (rs : List Trace) : Prop :=
  ∃ as : List Append, State.Settled ⟨t, as⟩ ∧ (∀ a ∈ as, a.stage.Cleared) ∧
    State.appended ⟨t, as⟩ = rs ∧ t.settings = settings ∧ t.time.width = max settings.bucketWidth 1

namespace Contains

variable {t t' : TraceTables} {settings : Settings} {rs : List Trace} {r : Trace}

theorem ofSettings (settings : Settings) : (TraceTables.ofSettings settings).Contains settings [] :=
  ⟨[], .start settings, fun _ ha => absurd ha List.not_mem_nil, rfl, rfl, rfl⟩

theorem length_le (h : t.Contains settings rs) : rs.length ≤ t.watermark.reserved := by
  obtain ⟨as, hs, -, rfl, -, -⟩ := h
  exact hs.length_le_reserved

theorem query_eq (h : t.Contains settings rs) (h' : t'.Contains settings rs) (path : AccessPath)
    (range : TimeRange) (cancelled : Nat → Bool) :
    t.query path range cancelled = t'.query path range cancelled := by
  obtain ⟨as, hs, -, happ, hset, -⟩ := h
  obtain ⟨as', hs', -, happ', hset', -⟩ := h'
  cases hc : cancelled 0 with
  | true => rw [query, query, hc, if_pos rfl, if_pos rfl]
  | false =>
    have hq := hs.query_cases range path cancelled hc
    have hq' := hs'.query_cases range path cancelled hc
    rw [happ] at hq
    rw [happ'] at hq'
    have hinterval : t'.settings.cancelInterval = t.settings.cancelInterval := by rw [hset, hset']
    exact Index.Scan.outcome_eq hq hq' hinterval rfl

theorem stats_eq (h : t.Contains settings rs) (h' : t'.Contains settings rs) : t.stats = t'.stats := by
  obtain ⟨as, hs, hcleared, happ, -, hwidth⟩ := h
  obtain ⟨as', hs', hcleared', happ', -, hwidth'⟩ := h'
  refine stats_eq_of_hasAt ?_ (fun s => ?_) (hs.inFlight_eq_zero.trans hs'.inFlight_eq_zero.symm)
  · have hsize := hs.size_eq
    rw [happ, ← happ', ← hs'.size_eq] at hsize
    exact hsize
  · rw [Bool.eq_iff_iff, hs.hasAt_iff hcleared, hs'.hasAt_iff hcleared', happ, happ', hwidth, hwidth']

theorem appendWith {σ : Type} {hook : Hook Empty σ} {s s' : σ} {x : Except (Failure Empty) RecordId}
    (h : t.Contains settings rs) (ha : t.appendWith hook.beside r s = (x, s', t')) :
    t'.Contains settings (rs ++ added r x) := by
  obtain ⟨as, hs, hcleared, rfl, hset, hwidth⟩ := h
  obtain ⟨o, hrun, hs'⟩ := hs.appendWith ha
  obtain ⟨hset', hwidth'⟩ := hrun.settings_width
  refine ⟨_, hs', fun a ha => ?_, State.appended_append t t' as r o x, hset'.trans hset, hwidth'.trans hwidth⟩
  rcases List.mem_append.mp ha with ha | ha
  · exact hcleared a ha
  · rw [List.mem_singleton.mp ha]
    exact Stage.cleared_ofResult o x

theorem free (h : t.Contains settings rs) (s : Slot) : (t.bucketAt s).held = false := by
  obtain ⟨as, hs, -⟩ := h
  exact hs.arranged.free s

theorem append_agree (h : t.Contains settings rs) (hleft : t.watermark.reserved < UInt64.size) (r : Trace) :
    ∃ i t', t.appendWith (Hook.agree (κ := Empty)) r () = (.ok i, (), t') ∧
      t'.Contains settings (rs ++ [r]) ∧ t'.watermark.reserved = t.watermark.reserved + 1 := by
  have hagree : Hook.agree (κ := Empty) () = (.ok (), ()) := rfl
  obtain ⟨i, t', happend, hreserved⟩ := TraceTables.exists_appendWith (fun _ s _ => h.free s) hleft hagree
  exact ⟨i, t', happend, h.appendWith happend, hreserved⟩

end Contains
end TraceTables
end FlightTrace
