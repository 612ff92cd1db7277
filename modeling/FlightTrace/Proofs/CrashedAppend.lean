import FlightTrace.Proofs.FailedAppend
import FlightTrace.Proofs.UnusedBuckets

/-! Appends whose hook crashes. Nothing is pruned behind them, so the buckets that they have made stay, empty and
free. Readers and later appends find what they would have found without them; only the sizes show the buckets. -/
namespace FlightTrace

theorem Index.Keyed.size_of_has {κ : Type} [Ord κ] [Std.TransOrd κ] [Std.LawfulEqOrd κ] [DecidableEq κ]
    {x y : Index.Keyed κ} {k : κ} (h : ∀ j, y.has j = true ↔ k = j ∨ x.has j = true) :
    y.size = x.size + if x.has k then 0 else 1 := by
  cases hk : x.has k with
  | true =>
    refine size_eq_of_has fun j => ?_
    rw [Bool.eq_iff_iff, h]
    exact or_iff_right_of_imp fun hj => hj ▸ hk
  | false =>
    have hinsert (j : κ) : y.has j = has { x with buckets := x.buckets.insert k {} } j := by
      rw [Bool.eq_iff_iff, h, has, has, OrderedMap.contains_insert, Bool.or_eq_true, decide_eq_true_iff, eq_comm]
    rw [size_eq_of_has hinsert]
    exact OrderedMap.size_insert hk

theorem Slot.exists_of?_iff {width : Int} {r : Trace} {s : Slot} :
    (∃ d, of? width r d = some s) ↔ of? width r s.dimension = some s := by
  refine ⟨?_, fun h => ⟨_, h⟩⟩
  rintro ⟨d, h⟩
  rwa [dimension_of? h]

namespace TraceTables

def missing (t : TraceTables) (r : Trace) (d : Dimension) : Nat :=
  match Slot.of? t.time.width r d with
  | some s => if t.hasAt s then 0 else 1
  | none => 0

/-- A bucket of a trace that is neither held nor filled, or is missing. -/
def UnusedOf (t : TraceTables) (r : Trace) (s : Slot) : Prop :=
  (∃ d, Slot.of? t.time.width r d = some s) ∧ (t.bucketAt s).used = false

variable {t t' : TraceTables} {r : Trace} {s : Slot}

theorem hasAt_of_missing_eq_zero (h : ∀ d, t.missing r d = 0) (hs : ∃ d, Slot.of? t.time.width r d = some s) :
    t.hasAt s = true := by
  obtain ⟨d, hd⟩ := hs
  have hm := h d
  rw [missing, hd] at hm
  by_contra hn
  simp [hn] at hm

theorem hasAt_of_used (h : (t.bucketAt s).used = true) : t.hasAt s = true := by
  cases s <;> exact Index.Keyed.has_of_used h

theorem SameUse.unusedOf_iff (h : t.SameUse t') : t'.UnusedOf r s ↔ t.UnusedOf r s := by
  rw [UnusedOf, UnusedOf, h.width, h.bucketAt]

theorem hasAt_prune_of_not_unusedOf (hu : ¬t.UnusedOf r s) : (t.prune r).hasAt s = t.hasAt s := by
  refine Bool.eq_iff_iff.mpr (hasAt_prune.trans (and_iff_left ?_))
  rintro ⟨hof, -, hidle⟩
  exact hu ⟨hof, Index.Bucket.not_used_iff.mpr hidle⟩

section

variable (hhas : ∀ s, t'.hasAt s = true ↔ (∃ d, Slot.of? t.time.width r d = some s) ∨ t.hasAt s = true)
include hhas

/-- A table that has got the buckets of a trace has got unused ones at most. -/
theorem hasAt_eq_of_not_unusedOf (hu : ¬t.UnusedOf r s) : t'.hasAt s = t.hasAt s := by
  refine Bool.eq_iff_iff.mpr ((hhas s).trans (or_iff_right_of_imp fun hof => ?_))
  by_contra hmissing
  exact hu ⟨hof, Bool.eq_false_iff.mpr fun hused => hmissing (hasAt_of_used hused)⟩

theorem stats_of_hasAt (hrecords : t'.traces.size = t.traces.size)
    (hinFlight : t'.watermark.inFlight = t.watermark.inFlight) :
    t'.stats = { t.stats with
      addresses := t.stats.addresses + t.missing r .address
      callsigns := t.stats.callsigns + t.missing r .callsign
      squawks := t.stats.squawks + t.missing r .squawk
      segments := t.stats.segments + t.missing r .time } := by
  simp only [Slot.exists_of?_iff] at hhas
  have hsegments : t'.time.segments.size = t.time.segments.size + t.missing r .time :=
    Index.Keyed.size_of_has fun n => (hhas (.time n)).trans (or_congr_left (by simp [Slot.dimension, Slot.of?]))
  have haddresses : t'.address.size = t.address.size + t.missing r .address :=
    Index.Keyed.size_of_has fun a => (hhas (.address a)).trans (or_congr_left (by simp [Slot.dimension, Slot.of?]))
  have hcallsigns : t'.callsign.size = t.callsign.size + t.missing r .callsign := by
    rw [missing, Slot.of?]
    cases hc : r.callsign with
    | none =>
      refine Index.Keyed.size_eq_of_has fun c => Bool.eq_iff_iff.mpr ((hhas (.callsign c)).trans ?_)
      simp [Slot.dimension, Slot.of?, hc, hasAt]
    | some c =>
      exact Index.Keyed.size_of_has fun c' =>
        (hhas (.callsign c')).trans (or_congr_left (by simp [Slot.dimension, Slot.of?, hc]))
  have hsquawks : t'.squawk.size = t.squawk.size + t.missing r .squawk := by
    rw [missing, Slot.of?]
    cases hc : r.squawk with
    | none =>
      refine Index.Keyed.size_eq_of_has fun c => Bool.eq_iff_iff.mpr ((hhas (.squawk c)).trans ?_)
      simp [Slot.dimension, Slot.of?, hc, hasAt]
    | some c =>
      exact Index.Keyed.size_of_has fun c' =>
        (hhas (.squawk c')).trans (or_congr_left (by simp [Slot.dimension, Slot.of?, hc]))
  rw [stats, stats, hrecords, haddresses, hcallsigns, hsquawks, hsegments, hinFlight]

end

theorem hasAt_of_locks (ds : List Dimension) (h : ds.foldlM (fun t d => t.lockAt r d) t = .ok t') :
    t'.hasAt s = true ↔ (∃ d ∈ ds, Slot.of? t.time.width r d = some s) ∨ t.hasAt s = true := by
  induction ds generalizing t with
  | nil =>
    cases h
    simp
  | cons d ds ih =>
    obtain ⟨t₁, hd, hds⟩ := locks_cons_iff.mp h
    rw [ih hds, hasAt_of_lockAt hd, (lockAt_framed hd).width, List.exists_mem_cons_iff, or_assoc, or_left_comm]

theorem hasAt_release : (t.release r).hasAt s = t.hasAt s := by
  rw [release_eq_foldl]
  simp only [Dimension.all, List.foldl, hasAt_releaseAt]

theorem hasAt_of_start {i : RecordId} (h : t.start r = .ok (i, t')) :
    t'.hasAt s = true ↔ (∃ d, Slot.of? t.time.width r d = some s) ∨ t.hasAt s = true := by
  obtain ⟨t₁, hlock, hreserve⟩ := start_eq_ok_iff.mp h
  obtain ⟨w, -, rfl⟩ := reserve?_eq_some_iff.mp hreserve
  have hlocks := hasAt_of_locks Dimension.all hlock (s := s)
  simp only [Dimension.mem_all, true_and] at hlocks
  exact hlocks

variable {κ σ : Type} {hook : Hook κ σ} {k : κ} {x x' : σ}

theorem start_of_crash (h : t.appendWith hook.beside r x = (.error (.crash k), x', t')) :
    ∃ i t₁, t.start r = .ok (i, t₁) ∧ t' = t₁.unwind i r := by
  rcases appendWith_cases h with ⟨e, -, hx, -⟩ | ⟨i, t₁, hstart, ⟨-, hx, -⟩ | ⟨e, -, hx, -⟩ | ⟨k, -, -, rfl⟩⟩
  · cases hx
  · cases hx
  · cases hx
  · exact ⟨i, t₁, hstart, rfl⟩

/-- A crashed append leaves what a failed one does and, besides, its buckets. -/
theorem appendWith_crash (hl : t.Listed) (h : t.appendWith hook.beside r x = (.error (.crash k), x', t')) :
    t'.prune r = { t.prune r with watermark := t'.watermark } ∧
      ∀ s, t'.hasAt s = true ↔ (∃ d, Slot.of? t.time.width r d = some s) ∨ t.hasAt s = true := by
  obtain ⟨i, t₁, hstart, rfl⟩ := start_of_crash h
  refine ⟨abandon_of_start hl hstart, fun s => ?_⟩
  have hunwind : (t₁.unwind i r).hasAt s = t₁.hasAt s := hasAt_release
  rw [hunwind, hasAt_of_start hstart]

end TraceTables

namespace Interleaving

variable {settings : Settings} {n n' : Nat} {σ σ' υ υ' : State}

/-- Whatever the appends can do from the second state on while there are numbers left, they can do from the first,
and readers find the same then. Some buckets apart, the same are there. -/
def State.MimicsBut (P : Slot → Prop) (n n' : Nat) (σ σ' : State) : Prop :=
  ∀ τ', Run σ' τ' → τ'.tables.watermark.reserved < UInt64.size → ∃ τ, Run σ τ ∧ τ.SeenAlike n n' τ' ∧
    ∀ s, ¬P s → τ'.tables.hasAt s = τ.tables.hasAt s

namespace State

theorem SeenAlike.sameUse (h : σ.SeenAlike n n' σ') (hu : σ.SameUse υ) (hu' : σ'.SameUse υ') :
    υ.SeenAlike n n' υ' where
  appends := by
    rw [hu.appends, hu'.appends]
    exact h.appends
  get? i i' hi := by rw [hu.tables.get?_eq, hu'.tables.get?_eq, h.get? i i' hi]
  query path range cancelled := by rw [hu.tables.query_eq, hu'.tables.query_eq, h.query]
  size := by
    rw [TraceTables.size, TraceTables.size, hu.tables.traces, hu'.tables.traces]
    exact h.size
  inFlight := by rw [hu.tables.watermark, hu'.tables.watermark, h.inFlight]

variable {P : Slot → Prop}

/-- Of two states alike, each may have other unused buckets. -/
theorem Alike.mimicsBut (h : υ.Alike settings n n' υ') (hu : σ.SameUse υ) (hu' : υ'.SameUse σ') (hn : n ≤ n' + 1)
    (hP : ∀ s, ¬P s → υ.tables.hasAt s = σ.tables.hasAt s ∧ υ'.tables.hasAt s = υ.tables.hasAt s ∧
      σ'.tables.hasAt s = υ'.tables.hasAt s) : σ.MimicsBut P n n' σ' := by
  intro τ' hrun hleft
  obtain ⟨ω', hrunω', hω', hhas₁⟩ := hu'.symm.run (.inr h.sound') hrun
  rw [← hω'.tables.watermark] at hleft
  obtain ⟨ω, hrunω, hω, hhas₂⟩ := h.symm.run hn hrunω' hleft
  obtain ⟨τ, hrunτ, hτ, hhas₃⟩ := hu.symm.run (.inl h.sound) hrunω
  refine ⟨τ, hrunτ, hω.symm.seenAlike.sameUse hτ hω'.symm, fun s hs => ?_⟩
  obtain ⟨h₃, h₂, h₁⟩ := hP s hs
  rw [hhas₃ s h₃.symm, hhas₂ s h₂.symm, hhas₁ s h₁.symm]

theorem Sound.get?_eq_none (h : σ.Sound) {i : RecordId} (hi : σ.tables.watermark.reserved ≤ i.val) :
    σ.tables.traces.get? i = none := by
  rw [Option.eq_none_iff_forall_ne_some]
  intro x hx
  obtain ⟨a, ha, hk, -⟩ := (h.kept i x).mp hx
  have hlt := (h.numbered i.val).mpr ⟨a, ha, i, Stage.id?_of_kept? hk, rfl⟩
  exact absurd hi (Nat.not_le.mpr hlt)

end State

variable {κ ω : Type} {hook : Hook κ ω} {t t' : TraceTables} {as : List Append} {r : Trace} {x x' : ω} {k : κ}

theorem run_crashed (as : List Append) (h : t.appendWith hook.beside r x = (.error (.crash k), x', t')) :
    ∃ i, i.val = t.watermark.reserved ∧
      Run ⟨t, as⟩ ⟨t', as ++ [⟨r, .undoing (some i) [] Dimension.all⟩]⟩ := by
  obtain ⟨i, t₁, hstart, rfl⟩ := TraceTables.start_of_crash h
  refine ⟨i, id_of_start hstart, ?_⟩
  calc Run ⟨t, as⟩ ⟨t, as ++ [.start r]⟩ := Relation.ReflTransGen.single (.start r)
    Run _ ⟨t₁, as ++ [⟨r, .asking i⟩]⟩ := (quiet_start_ok hstart).run as []
    Run _ ⟨t₁, as ++ [⟨r, .refused i⟩]⟩ := Run.advance as .refuse []
    Run _ ⟨t₁.unwind i r, as ++ [⟨r, .undoing (some i) [] Dimension.all⟩]⟩ := (quiet_unwind i).run as []

/-- An append whose hook crashes leaves its buckets. What is kept, the keys and the holding of every bucket, what is
in flight and the answer to every query are as before, and the next number is used up. But each bucket of its trace is
there now, and those that were missing show in the sizes, until they are pruned; a failed append would have done
that. If none was missing, the tables are as before but for the number. From then on the appends can do what they
could have done without it, and nothing else, and readers see the same; only of the buckets of its trace that were
not in use one may be there that would not be. The crashed append itself takes no step any more. -/
theorem crashed_append_leaves_its_buckets (settings : Settings) (h : Run (.start settings) ⟨t, as⟩)
    (ha : t.appendWith hook.beside r x = (.error (.crash k), x', t')) :
    (t'.settings = t.settings ∧ t'.traces = t.traces ∧ (∀ s, t'.bucketAt s = t.bucketAt s) ∧
      t'.watermark.inFlight = t.watermark.inFlight ∧ t'.watermark.reserved = t.watermark.reserved + 1 ∧
      (∀ i, t'.get? i = t.get? i) ∧
      ∀ path range cancelled, t'.query path range cancelled = t.query path range cancelled) ∧
    ((∀ s, t'.hasAt s = true ↔ (∃ d, Slot.of? t.time.width r d = some s) ∨ t.hasAt s = true) ∧ t'.Listed ∧
      t'.stats = { t.stats with
        addresses := t.stats.addresses + t.missing r .address
        callsigns := t.stats.callsigns + t.missing r .callsign
        squawks := t.stats.squawks + t.missing r .squawk
        segments := t.stats.segments + t.missing r .time } ∧
      t'.prune r = { t.prune r with watermark := t'.watermark } ∧
      ((∀ d, t.missing r d = 0) → t' = { t with watermark := t'.watermark })) ∧
    ∃ i, i.val = t.watermark.reserved ∧ Run ⟨t, as⟩ ⟨t', as ++ [⟨r, .undoing (some i) [] Dimension.all⟩]⟩ ∧
      State.MimicsBut (t.UnusedOf r) t.watermark.reserved t'.watermark.reserved ⟨t, as⟩
        ⟨t', as ++ [⟨r, .undoing (some i) [] []⟩]⟩ ∧
      State.MimicsBut (t.UnusedOf r) t'.watermark.reserved t.watermark.reserved
        ⟨t', as ++ [⟨r, .undoing (some i) [] []⟩]⟩ ⟨t, as⟩ := by
  have hs := h.sound (State.start_sound settings)
  obtain ⟨hprune, hhas⟩ := TraceTables.appendWith_crash hs.listed ha
  obtain ⟨i, hi, hrun⟩ := run_crashed as ha
  have hs' := hrun.sound hs
  -- were it to prune its buckets it would have come to nothing like any other
  have hpruned : Run (.start settings) ⟨t'.prune r, as ++ [⟨r, .undoing (some i) [] []⟩]⟩ := by
    rw [TraceTables.prune_eq_foldl]
    exact (h.trans hrun).trans ((quiet_prune (some i) Dimension.all).run as [])
  have halike := alike_of_undone h hpruned
  have hreserved : (t'.prune r).watermark.reserved = t.watermark.reserved + 1 := reserved_eq_of_undone h hpruned
  have hsame : t'.SameUse (t'.prune r) := TraceTables.sameUse_prune hs'.listed
  rw [hsame.watermark] at halike hreserved
  have hbefore : TraceTables.SameUse { t with watermark := t'.watermark } t' := by
    have hafter := (TraceTables.sameUse_prune (r := r) hs.listed).reserved t'.watermark
    rw [← hprune] at hafter
    exact hafter.trans hsame.symm
  have hinFlight : t'.watermark.inFlight = t.watermark.inFlight := by
    rw [← hsame.watermark]
    exact halike.inFlight_eq
  have hunused (s : Slot) (hu : ¬t.UnusedOf r s) :
      (t'.prune r).hasAt s = t.hasAt s ∧ (t'.prune r).hasAt s = t'.hasAt s := by
    have hkept := TraceTables.hasAt_eq_of_not_unusedOf hhas hu
    have hpruned := TraceTables.hasAt_prune_of_not_unusedOf (mt hbefore.unusedOf_iff.mp hu)
    exact ⟨hpruned.trans hkept, hpruned⟩
  refine ⟨⟨hbefore.settings, hbefore.traces, hbefore.bucketAt, hinFlight, hreserved, fun j => ?_, fun p g c => ?_⟩,
    ⟨hhas, hs'.listed, ?_, hprune, fun hmissing => ?_⟩, i, hi, hrun, ?_, ?_⟩
  · by_cases hj : j.val < t.watermark.reserved
    · rw [← hsame.get?_eq]
      exact halike.get?_eq (.inl ⟨hj, by omega, rfl⟩)
    · have hnone : t.traces.get? j = none := hs.get?_eq_none (Nat.not_lt.mp hj)
      rw [TraceTables.get?, TraceTables.get?, hbefore.traces, hnone, ite_self, ite_self]
  · rw [← hsame.query_eq]
    exact halike.query_eq p g c
  · exact TraceTables.stats_of_hasAt hhas (congrArg OrderedMap.size hbefore.traces) hinFlight
  · refine hbefore.eq_of_hasAt fun s => Bool.eq_iff_iff.mpr ((hhas s).trans ?_)
    exact or_iff_right_of_imp (TraceTables.hasAt_of_missing_eq_zero hmissing)
  · exact halike.mimicsBut (.refl hs.listed) ⟨rfl, hsame.symm⟩ (by omega) fun s hu =>
      ⟨rfl, (hunused s hu).1, (hunused s hu).2.symm⟩
  · exact halike.symm.mimicsBut ⟨rfl, hsame⟩ (.refl hs.listed) (by omega) fun s hu =>
      ⟨(hunused s hu).2, (hunused s hu).1.symm, rfl⟩

namespace Crashing

def crash : Hook Unit Unit := fun s => (.error (.crash ()), s)

def labelled : Trace where
  time := ⟨1700000000, 0, by decide, by decide⟩
  address := ⟨5, by decide⟩
  callsign := some ⟨"A", by decide, by decide⟩
  squawk := some ⟨9, by decide⟩

end Crashing

open Crashing Overtaking

/-- While one append goes on, the hook of another crashes. The bucket of its aircraft and its segment stay. -/
theorem crashed_append_leaves_bucket_and_segment : ∃ t,
    begun.appendWith (Hook.beside crash) upper () = (.error (.crash ()), (), t) ∧
    begun.stats = ⟨0, 1, 0, 0, 1, 1⟩ ∧ t.stats = ⟨0, 2, 0, 0, 2, 1⟩ ∧
    begun.watermark.reserved = 1 ∧ t.watermark.reserved = 2 := by
  have hcrash : begun.appendWith (Hook.beside crash) upper () = (.error (.crash ()), (), _) := rfl
  obtain ⟨⟨-, -, -, -, hreserved, -⟩, ⟨-, -, hstats, -⟩, -⟩ := crashed_append_leaves_its_buckets {} run_begun hcrash
  exact ⟨_, hcrash, rfl, hstats, rfl, hreserved⟩

/-- On empty tables a crashed append leaves a bucket in every index, although nothing is in flight. -/
theorem crashed_append_shows_in_sizes : ∃ t, Run (.start {}) ⟨.ofSettings {}, []⟩ ∧
    (TraceTables.ofSettings {}).watermark.inFlight = 0 ∧
    (TraceTables.ofSettings {}).appendWith (Hook.beside crash) labelled () = (.error (.crash ()), (), t) ∧
    t.watermark.inFlight = 0 ∧
    (TraceTables.ofSettings {}).stats = ⟨0, 0, 0, 0, 0, 0⟩ ∧ t.stats = ⟨0, 1, 1, 1, 1, 0⟩ :=
  ⟨_, .refl, rfl, rfl, rfl, rfl, rfl⟩

end Interleaving
end FlightTrace
