import FlightTrace.Proofs.Searching
import FlightTrace.Sighting

/-! Sightings as summaries. Counting never compares times: the last trace of an aircraft that is counted is taken
for its latest, which is right because a query gives its traces in the order of time. So the sightings on a path tell,
for each aircraft on it, when it was first and last there and how often. -/
namespace FlightTrace

theorem Instant.le_refl (t : Instant) : t ≤ t := by
  have h : compare t t = .eq := Std.ReflCmp.compare_self
  rw [le_iff_compare, h]
  rfl

namespace Sighting

/-- A sighting tells when an aircraft was first and last among some traces, and in how many of them it was. -/
structure Summarises (s : Sighting) (rs : List Trace) : Prop where
  first : IsLeast {t | ∃ r ∈ rs, r.address = s.address ∧ r.time = t} s.firstSeen
  last : IsGreatest {t | ∃ r ∈ rs, r.address = s.address ∧ r.time = t} s.lastSeen
  count : s.observations = rs.countP (·.address = s.address)

/-- Each aircraft among some traces has its sighting in the map, and the map has no others. -/
structure Counted (m : OrderedMap Address Sighting) (rs : List Trace) : Prop where
  summary : ∀ a s, m.get? a = some s → s.address = a ∧ s.Summarises rs
  missing : ∀ a, m.get? a = none → ∀ r ∈ rs, r.address ≠ a

variable {s : Sighting} {rs rs' : List Trace} {r : Trace} {m : OrderedMap Address Sighting}

theorem Summarises.perm (h : s.Summarises rs) (hp : rs.Perm rs') : s.Summarises rs' where
  first := by simpa only [hp.mem_iff] using h.first
  last := by simpa only [hp.mem_iff] using h.last
  count := h.count.trans (hp.countP_eq _)

theorem Summarises.skip (h : s.Summarises rs) (hr : r.address ≠ s.address) : s.Summarises (rs ++ [r]) := by
  have hmem (t : Instant) : (∃ r' ∈ rs ++ [r], r'.address = s.address ∧ r'.time = t) ↔
      ∃ r' ∈ rs, r'.address = s.address ∧ r'.time = t := by
    simp [or_and_right, exists_or, hr]
  refine ⟨?_, ?_, ?_⟩
  · simpa only [hmem] using h.first
  · simpa only [hmem] using h.last
  · rw [h.count, List.countP_append, List.countP_singleton, if_neg (by simpa using hr), Nat.add_zero]

theorem Summarises.extend (h : s.Summarises rs) (hr : r.address = s.address) (hlater : ∀ r' ∈ rs, r'.time ≤ r.time) :
    (s.extend r).Summarises (rs ++ [r]) where
  first := by
    obtain ⟨⟨r₀, hr₀, ha, ht⟩, hleast⟩ := h.first
    refine ⟨⟨r₀, List.mem_append_left _ hr₀, ha, ht⟩, ?_⟩
    rintro _ ⟨r', hr', ha', rfl⟩
    rcases List.mem_append.mp hr' with hr' | hr'
    · exact hleast ⟨r', hr', ha', rfl⟩
    · rw [List.mem_singleton.mp hr']
      exact ht ▸ hlater r₀ hr₀
  last := by
    refine ⟨⟨r, List.mem_append_right _ List.mem_cons_self, hr, rfl⟩, ?_⟩
    rintro _ ⟨r', hr', -, rfl⟩
    rcases List.mem_append.mp hr' with hr' | hr'
    · exact hlater r' hr'
    · rw [List.mem_singleton.mp hr']
      exact Instant.le_refl r.time
  count := by
    change s.observations + 1 = (rs ++ [r]).countP (·.address = s.address)
    rw [List.countP_append, List.countP_singleton, if_pos (decide_eq_true hr), h.count]

theorem summarises_ofTrace (hnew : ∀ r' ∈ rs, r'.address ≠ r.address) : (ofTrace r).Summarises (rs ++ [r]) := by
  have hmem (t : Instant) : (∃ r' ∈ rs ++ [r], r'.address = r.address ∧ r'.time = t) ↔ t = r.time := by
    constructor
    · rintro ⟨r', hr', ha, rfl⟩
      rcases List.mem_append.mp hr' with hr' | hr'
      · exact absurd ha (hnew r' hr')
      · rw [List.mem_singleton.mp hr']
    · rintro rfl
      exact ⟨r, List.mem_append_right _ List.mem_cons_self, rfl, rfl⟩
  have hset : {t | ∃ r' ∈ rs ++ [r], r'.address = r.address ∧ r'.time = t} = {r.time} := Set.ext hmem
  refine ⟨?_, ?_, ?_⟩
  · change IsLeast {t | ∃ r' ∈ rs ++ [r], r'.address = r.address ∧ r'.time = t} r.time
    rw [hset]
    exact ⟨rfl, fun t ht => ht ▸ Instant.le_refl r.time⟩
  · change IsGreatest {t | ∃ r' ∈ rs ++ [r], r'.address = r.address ∧ r'.time = t} r.time
    rw [hset]
    exact ⟨rfl, fun t ht => ht ▸ Instant.le_refl r.time⟩
  · have hnone : rs.countP (·.address = r.address) = 0 :=
      List.countP_eq_zero.mpr fun r' hr' => by simpa using hnew r' hr'
    change 1 = (rs ++ [r]).countP (·.address = r.address)
    rw [List.countP_append, hnone, List.countP_singleton, if_pos (by simp)]

namespace Counted

theorem empty : Counted ∅ [] where
  summary a s h := by cases h
  missing a _ r hr := absurd hr List.not_mem_nil

theorem count (h : Counted m rs) (hlater : ∀ r' ∈ rs, r'.time ≤ r.time) : Counted (Sighting.count m r) (rs ++ [r]) where
  summary a s hs := by
    rw [Sighting.count, OrderedMap.get?_insert] at hs
    split at hs
    · rename_i ha
      subst ha
      obtain rfl := Option.some.inj hs
      cases hm : m.get? r.address with
      | none => exact ⟨rfl, summarises_ofTrace (h.missing _ hm)⟩
      | some s =>
        obtain ⟨ha, hsum⟩ := h.summary _ s hm
        exact ⟨ha, hsum.extend ha.symm hlater⟩
    · rename_i ha
      obtain ⟨rfl, hsum⟩ := h.summary a s hs
      exact ⟨rfl, hsum.skip fun hr => ha hr.symm⟩
  missing a ha r' hr' := by
    rw [Sighting.count, OrderedMap.get?_insert] at ha
    split at ha
    · cases ha
    · rename_i hne
      rcases List.mem_append.mp hr' with hr' | hr'
      · exact h.missing a ha r' hr'
      · rw [List.mem_singleton.mp hr']
        exact fun hr => hne hr.symm

theorem foldl_count (hs : rs.Pairwise fun r r' => r.time ≤ r'.time) : Counted (rs.foldl Sighting.count ∅) rs := by
  induction rs using List.reverseRecOn with
  | nil => exact empty
  | append_singleton rs r ih =>
    obtain ⟨hrs, -, hlater⟩ := List.pairwise_append.mp hs
    rw [List.foldl_append]
    exact (ih hrs).count fun r' hr' => hlater r' hr' r List.mem_cons_self

theorem mem_keys_iff (h : Counted m rs) (a : Address) : a ∈ m.keys ↔ a ∈ rs.map (·.address) := by
  rw [OrderedMap.mem_keys_iff, OrderedMap.contains, List.mem_map]
  cases hm : m.get? a with
  | none =>
    refine iff_of_false Bool.false_ne_true ?_
    rintro ⟨r, hr, ha⟩
    exact h.missing a hm r hr ha
  | some s =>
    obtain ⟨rfl, hsum⟩ := h.summary a s hm
    obtain ⟨r, hr, ha, -⟩ := hsum.first.1
    exact iff_of_true rfl ⟨r, hr, ha⟩

theorem map_address (h : Counted m rs) : (m.toList.map (·.2)).map (·.address) = m.keys := by
  rw [List.map_map, OrderedMap.keys]
  exact List.map_congr_left fun p hp => (h.summary p.1 p.2 (OrderedMap.mem_toList_iff.mp hp)).1

theorem sum_observations (h : Counted m rs) : ((m.toList.map (·.2)).map (·.observations)).sum = rs.length := by
  have hcount : (m.toList.map (·.2)).map (·.observations) = m.keys.map fun a => (rs.map (·.address)).count a := by
    rw [OrderedMap.keys, List.map_map, List.map_map]
    refine List.map_congr_left fun p hp => ?_
    obtain ⟨ha, hsum⟩ := h.summary p.1 p.2 (OrderedMap.mem_toList_iff.mp hp)
    simp only [Function.comp, hsum.count, ha, List.count, List.countP_map]
    refine List.countP_congr fun r _ => ?_
    simp
  have hperm : m.keys.Perm (rs.map (·.address)).dedup := by
    refine (List.perm_ext_iff_of_nodup (Ordered.nodup_of_ascending m.keys_ascending) (List.nodup_dedup _)).mpr ?_
    exact fun a => (h.mem_keys_iff a).trans List.mem_dedup.symm
  rw [hcount, (hperm.map _).sum_eq, List.sum_map_count_dedup_eq_length, List.length_map]

end Counted

/-- Whether a sighting stands strictly before another: it began earlier, or at the same time with a lower address. -/
def Precedes (s s' : Sighting) : Prop :=
  s.firstSeen < s'.firstSeen ∨ s.firstSeen = s'.firstSeen ∧ s.address.val < s'.address.val

theorem comesBefore_eq (s s' : Sighting) :
    comesBefore s s' = (compareLex (compareOn firstSeen) (compareOn address) s s').isLE := rfl

theorem comesBefore_trans (s s' s'' : Sighting) (h : comesBefore s s' = true) (h' : comesBefore s' s'' = true) :
    comesBefore s s'' = true := by
  rw [comesBefore_eq] at h h' ⊢
  exact Std.TransCmp.isLE_trans h h'

theorem comesBefore_total (s s' : Sighting) : (comesBefore s s' || comesBefore s' s) = true := by
  have hswap : compareLex (compareOn firstSeen) (compareOn address) s' s =
      (compareLex (compareOn firstSeen) (compareOn address) s s').swap := Std.OrientedCmp.eq_swap
  rw [comesBefore_eq, comesBefore_eq, hswap]
  cases compareLex (compareOn firstSeen) (compareOn address) s s' <;> rfl

/-- Sightings of different aircraft never stand at the same place. -/
theorem precedes_of_comesBefore {s s' : Sighting} (h : comesBefore s s' = true) (hne : s.address ≠ s'.address) :
    s.Precedes s' := by
  rw [comesBefore] at h
  cases hc : compare s.firstSeen s'.firstSeen with
  | lt => exact .inl hc
  | eq =>
    rw [hc] at h
    refine .inr ⟨Std.LawfulEqOrd.eq_of_compare hc, ?_⟩
    have hle : s.address.val ≤ s'.address.val := Nat.isLE_compare.mp h
    refine lt_of_le_of_ne hle fun heq => hne ?_
    exact Std.LawfulEqOrd.eq_of_compare (Nat.compare_eq_eq.mpr heq)
  | gt =>
    rw [hc] at h
    cases h

/-- The sightings in traces that stand in the order of time. -/
theorem ofTraces_summarise (hs : rs.Pairwise fun r r' => r.time ≤ r'.time) :
    (∀ a, a ∈ (ofTraces rs).map (·.address) ↔ ∃ r ∈ rs, r.address = a) ∧
    ((ofTraces rs).map (·.address)).Nodup ∧
    (∀ s ∈ ofTraces rs, s.Summarises rs) ∧
    (ofTraces rs).Pairwise Precedes ∧
    ((ofTraces rs).map (·.observations)).sum = rs.length := by
  have h : Counted (rs.foldl Sighting.count ∅) rs := .foldl_count hs
  have hperm : (ofTraces rs).Perm ((rs.foldl Sighting.count ∅).toList.map (·.2)) := List.mergeSort_perm _ _
  have haddress : ((ofTraces rs).map (·.address)).Perm (rs.foldl Sighting.count ∅).keys :=
    h.map_address ▸ hperm.map _
  have hnodup : ((ofTraces rs).map (·.address)).Nodup :=
    haddress.nodup_iff.mpr (Ordered.nodup_of_ascending OrderedMap.keys_ascending)
  refine ⟨fun a => ?_, hnodup, fun s hs => ?_, ?_, ?_⟩
  · rw [haddress.mem_iff, h.mem_keys_iff, List.mem_map]
  · obtain ⟨⟨a, s⟩, hp, rfl⟩ := List.mem_map.mp (hperm.mem_iff.mp hs)
    exact (h.summary a s (OrderedMap.mem_toList_iff.mp hp)).2
  · have hsorted : (ofTraces rs).Pairwise fun s s' => comesBefore s s' = true :=
      List.pairwise_mergeSort comesBefore_trans comesBefore_total _
    exact (hsorted.and (List.pairwise_map.mp hnodup)).imp fun hss => precedes_of_comesBefore hss.1 hss.2
  · rw [(hperm.map _).sum_eq, h.sum_observations]

end Sighting

namespace Interleaving

theorem time_le_of_leOn {p p' : RecordId × Trace} (h : Ordered.leOn keyOf p p' = true) : p.2.time ≤ p'.2.time := by
  rw [Ordered.leOn, Index.Key.compare_eq] at h
  rw [Instant.le_iff_compare]
  change ((compare p.2.time p'.2.time).then (compare p.1 p'.1)).isLE = true at h
  cases hc : compare p.2.time p'.2.time with
  | gt =>
    rw [hc] at h
    cases h
  | _ => rfl

namespace State

def shownOn (σ : State) (path : AccessPath) : List (RecordId × Trace) :=
  σ.shown.filter fun p => path.matchesTrace p.2

/-- The traces on a path that can be seen, in the order of time and arrival. -/
def listing (σ : State) (path : AccessPath) : List (RecordId × Trace) :=
  (σ.shownOn path).mergeSort (Ordered.leOn keyOf)

variable {σ : State} {path : AccessPath} {cancelled : Nat → Bool}

theorem snapshot_all (σ : State) (path : AccessPath) : σ.snapshot .all path = (σ.listing path).map keyOf := by
  have hfilter : σ.shownOn path = σ.committed.filter fun p => p.1.val < σ.tables.watermark.visible &&
      (path.matchesTrace p.2 && TimeRange.all.contains p.2.time) := by
    rw [shownOn, shown, List.filter_filter]
    refine List.filter_congr fun p _ => ?_
    rw [show TimeRange.all.contains p.2.time = true from rfl, Bool.and_true, Bool.and_comm]
  rw [listing, hfilter]
  exact (Ordered.map_mergeSort id keyOf _).symm

theorem listing_sorted (σ : State) (path : AccessPath) :
    ((σ.listing path).map (·.2)).Pairwise fun r r' => r.time ≤ r'.time := by
  have hsorted : (σ.listing path).Pairwise fun p p' => Ordered.leOn keyOf p p' = true :=
    List.pairwise_mergeSort (Ordered.leOn_trans keyOf) (Ordered.leOn_total keyOf) _
  exact List.pairwise_map.mpr (hsorted.imp time_le_of_leOn)

theorem listing_perm (σ : State) (path : AccessPath) : (σ.listing path).Perm (σ.shownOn path) :=
  List.mergeSort_perm _ _

namespace Sound

variable (h : σ.Sound)
include h

theorem mem_shownOn_iff {p : RecordId × Trace} :
    p ∈ σ.shownOn path ↔ σ.tables.get? p.1 = some p.2 ∧ path.matchesTrace p.2 = true := by
  rw [shownOn, List.mem_filter, ← h.mem_shown_iff]

theorem resolve_listing (path : AccessPath) :
    σ.tables.resolve ((σ.listing path).map keyOf) = (σ.listing path).map (·.2) := by
  rw [TraceTables.resolve, List.filterMap_map, ← List.filterMap_eq_map]
  refine List.filterMap_congr fun p hp => h.get?_of_mem_shown ?_
  exact (List.mem_filter.mp ((σ.listing_perm path).mem_iff.mp hp)).1

/-- A query over all time that comes to its end has found all traces on its path that can be seen. -/
theorem eq_of_query {found : List Trace} (hq : σ.tables.query path .all cancelled = .ok found) :
    found = (σ.listing path).map (·.2) := by
  rw [TraceTables.query] at hq
  split at hq
  · cases hq
  · cases hstop : (σ.tables.scan (σ.tables.beginScan cancelled) .all {} path).stop with
    | some e =>
      simp only [hstop] at hq
      cases hq
    | none =>
      have hkeys : σ.tables.keysBelow σ.tables.watermark.visible .all path = σ.snapshot .all path :=
        Run.filter_keysOn .refl h .all path
      have hfound : (σ.tables.scan (σ.tables.beginScan cancelled) .all {} path).found = (σ.listing path).map keyOf :=
        (TraceTables.found_of_not_stopped h.time_sound rfl hstop).trans (hkeys.trans (σ.snapshot_all path))
      simp only [hstop, hfound, h.resolve_listing] at hq
      exact (Except.ok.inj hq).symm

theorem exists_query (hc : ∀ n, cancelled n = false) (hb : σ.tables.blocked .all path = false) :
    ∃ found, σ.tables.query path .all cancelled = .ok found := by
  have hstop := TraceTables.not_stopped_of_not_blocked (s := σ.tables.beginScan cancelled) (p := {}) h.time_sound hc
    rfl hb
  rw [TraceTables.query, hc, if_neg Bool.false_ne_true]
  simp only [hstop]
  exact ⟨_, rfl⟩

end Sound
end State

variable {σ : State}

/-- However appends interleave, the sightings on a path tell of the aircraft that have a trace on it which can be
seen, and of no others. Each tells when its aircraft was there first and last, and how often; they stand in the order
of the first time and then of the addresses; and together they count what the query finds. Where the query fails the
sightings fail with the same error, and a query that is not cancelled fails only at a bucket that an append holds. -/
theorem sightings_summarise_shown (settings : Settings) (h : Run (.start settings) σ) (path : AccessPath)
    (cancelled : Nat → Bool) :
    (∀ p, p ∈ σ.shownOn path ↔ σ.tables.get? p.1 = some p.2 ∧ path.matchesTrace p.2 = true) ∧
    (σ.shownOn path).Pairwise (fun p p' => p.1 ≠ p'.1) ∧
    (∀ found, σ.tables.query path .all cancelled = .ok found → ∃ ss,
      σ.tables.sightings path cancelled = .ok ss ∧
      (∀ a, a ∈ ss.map (·.address) ↔ ∃ p ∈ σ.shownOn path, p.2.address = a) ∧
      (ss.map (·.address)).Nodup ∧
      (∀ s ∈ ss, s.Summarises ((σ.shownOn path).map (·.2))) ∧
      ss.Pairwise Sighting.Precedes ∧
      (ss.map (·.observations)).sum = found.length) ∧
    (∀ e, σ.tables.query path .all cancelled = .error e → σ.tables.sightings path cancelled = .error e) ∧
    ((∀ n, cancelled n = false) → σ.tables.blocked .all path = false →
      ∃ found, σ.tables.query path .all cancelled = .ok found) ∧
    ((∀ a ∈ σ.appends, a.stage.Ended) → σ.tables.blocked .all path = false) := by
  have hs := h.sound (State.start_sound settings)
  refine ⟨fun p => hs.mem_shownOn_iff, hs.shown_distinct.filter _, fun found hq => ?_, fun e hq => ?_,
    hs.exists_query, fun hended => ?_⟩
  · obtain rfl := hs.eq_of_query hq
    have hperm := (σ.listing_perm path).map (·.2)
    obtain ⟨haddress, hnodup, hsummary, hordered, hsum⟩ := Sighting.ofTraces_summarise (σ.listing_sorted path)
    refine ⟨_, ?_, fun a => ?_, hnodup, fun s hs => (hsummary s hs).perm hperm, hordered, hsum⟩
    · rw [TraceTables.sightings, hq]
      rfl
    · simp only [haddress, hperm.mem_iff, List.mem_map, exists_exists_and_eq_and]
  · rw [TraceTables.sightings, hq]
    rfl
  · exact TraceTables.blocked_eq_false_iff.mpr fun s _ => hs.free hended s

/-- Of two traces of one aircraft the later one arrives first. -/
theorem sighting_of_late_arrival : ∃ (σ : State) (r r' : Trace) (c : Squawk), Run (.start {}) σ ∧
    r'.time < r.time ∧ (σ.shownOn (.squawk c)).map (·.2) = [r, r'] ∧
    σ.tables.sightings (.squawk c) (fun _ => false) = .ok [⟨r.address, r'.time, r.time, 2⟩] ∧
    (⟨r.address, r'.time, r.time, 2⟩ : Sighting).Summarises [r, r'] := by
  let c : Squawk := ⟨5, by decide⟩
  let r : Trace := { time := ⟨60, 0, by decide, by decide⟩, address := ⟨1, by decide⟩, squawk := some c }
  let r' : Trace := { r with time := default }
  let s : Sighting := ⟨r.address, r'.time, r.time, 2⟩
  let hook : Hook Empty (Unit × TraceTables) := Hook.beside Hook.agree
  let t₁ := ((TraceTables.ofSettings {}).appendWith hook r ()).2.2
  let t₂ := (t₁.appendWith hook r' ()).2.2
  obtain ⟨_, hrun₁⟩ := run_appendWith [] (State.start_sound {}).listed
    (show (TraceTables.ofSettings {}).appendWith hook r () = (.ok .min, (), t₁) from rfl)
  obtain ⟨_, hrun₂⟩ := run_appendWith [⟨r, .committed .min⟩] (hrun₁.sound (State.start_sound {})).listed
    (show t₁.appendWith hook r' () = (.ok ⟨1, by decide⟩, (), t₂) from rfl)
  let σ : State := ⟨t₂, [⟨r, .committed .min⟩, ⟨r', .committed ⟨1, by decide⟩⟩]⟩
  have hrun : Run (.start {}) σ := hrun₁.trans hrun₂
  have hshown : (σ.shownOn (.squawk c)).map (·.2) = [r, r'] := rfl
  have hquery : σ.tables.query (.squawk c) .all (fun _ => false) = .ok [r', r] := by decide +kernel
  obtain ⟨-, -, hfound, -⟩ := sightings_summarise_shown {} hrun (.squawk c) fun _ => false
  obtain ⟨ss, hss, -, -, hsummary, -⟩ := hfound _ hquery
  have hone : σ.tables.sightings (.squawk c) (fun _ => false) = .ok [s] := by decide +kernel
  have hmem : s ∈ ss := by
    rw [hone] at hss
    exact Except.ok.inj hss ▸ List.mem_cons_self
  exact ⟨σ, r, r', c, hrun, by decide, hshown, hone, hshown ▸ hsummary s hmem⟩

end Interleaving
end FlightTrace
