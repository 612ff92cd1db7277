import FlightTrace.Proofs.Interleaving

/-! The invariant of overlapping appends: the tables contain what the appends have done so far. Each part of it
is kept by a step of one append, whatever the others have done, and by the beginning of another. -/
namespace FlightTrace
namespace Interleaving

namespace Append

def Holds (width : Int) (a : Append) (s : Slot) : Prop :=
  ∃ d ∈ a.stage.held, Slot.of? width a.record d = some s

def Claims (width : Int) (a : Append) (s : Slot) : Prop :=
  ∃ d ∈ a.stage.claimed, Slot.of? width a.record d = some s

def Indexes (width : Int) (a : Append) (s : Slot) (k : Index.Key) : Prop :=
  ∃ p ∈ a.stage.indexed, Slot.of? width a.record p.1 = some s ∧ k = ⟨a.record.time, p.2⟩

variable {width : Int} {r : Trace} {g g' : Stage} {s : Slot} {d : Dimension}

theorem Holds.mono (hg : g.held ⊆ g'.held) (h : Holds width ⟨r, g⟩ s) : Holds width ⟨r, g'⟩ s := by
  obtain ⟨d, hd, hs⟩ := h
  exact ⟨d, hg hd, hs⟩

theorem Claims.mono (hg : g.claimed ⊆ g'.claimed) (h : Claims width ⟨r, g⟩ s) : Claims width ⟨r, g'⟩ s := by
  obtain ⟨d, hd, hs⟩ := h
  exact ⟨d, hg hd, hs⟩

theorem Indexes.mono {k : Index.Key} (hg : g.indexed ⊆ g'.indexed) (h : Indexes width ⟨r, g⟩ s k) :
    Indexes width ⟨r, g'⟩ s k := by
  obtain ⟨p, hp, hs⟩ := h
  exact ⟨p, hg hp, hs⟩

theorem holds_append_iff (hg : g'.held = g.held ++ [d]) :
    Holds width ⟨r, g'⟩ s ↔ Holds width ⟨r, g⟩ s ∨ Slot.of? width r d = some s := by
  simp only [Holds, hg, List.mem_append, List.mem_singleton, or_and_right, exists_or, exists_eq_left]

theorem holds_filter_iff (hg : g'.held = g.held.filter (· ≠ d)) :
    Holds width ⟨r, g'⟩ s ↔ Holds width ⟨r, g⟩ s ∧ Slot.of? width r d ≠ some s := by
  simp only [Holds, hg, List.mem_filter, decide_eq_true_eq]
  constructor
  · rintro ⟨e, ⟨he, hne⟩, hs⟩
    refine ⟨⟨e, he, hs⟩, fun hs' => hne ?_⟩
    exact (Slot.dimension_of? hs).symm.trans (Slot.dimension_of? hs')
  · rintro ⟨⟨e, he, hs⟩, hs'⟩
    refine ⟨e, ⟨he, ?_⟩, hs⟩
    rintro rfl
    exact hs' hs

theorem indexes_append_iff {i : RecordId} {k : Index.Key} (hg : g'.indexed = g.indexed ++ [(d, i)]) :
    Indexes width ⟨r, g'⟩ s k ↔
      Indexes width ⟨r, g⟩ s k ∨ (Slot.of? width r d = some s ∧ k = ⟨r.time, i⟩) := by
  simp only [Indexes, hg, List.mem_append, List.mem_singleton, or_and_right, exists_or, exists_eq_left]

end Append

/-- What holds in every state: the tables contain what the appends have done so far, and nothing else. -/
structure State.Sound (σ : State) : Prop where
  kept : ∀ i r, σ.tables.traces.get? i = some r ↔
    ∃ a ∈ σ.appends, a.stage.kept? = some i ∧ a.record = r
  indexed : ∀ s k, k ∈ (σ.tables.bucketAt s).keys ↔ ∃ a ∈ σ.appends, a.Indexes σ.tables.time.width s k
  held : ∀ s, (σ.tables.bucketAt s).held = true ↔ ∃ a ∈ σ.appends, a.Holds σ.tables.time.width s
  exclusive : σ.appends.Pairwise fun a b =>
    ∀ s, a.Holds σ.tables.time.width s → ¬b.Holds σ.tables.time.width s
  numbered : ∀ n, n < σ.tables.watermark.reserved ↔
    ∃ a ∈ σ.appends, ∃ i, a.stage.id? = some i ∧ i.val = n
  distinct : σ.appends.Pairwise fun a b => ∀ i, a.stage.id? = some i → b.stage.id? ≠ some i
  finished : ∀ n, σ.tables.watermark.Finished n ↔
    ∃ a ∈ σ.appends, ∃ i, a.stage.finished? = some i ∧ i.val = n
  waiting : ∀ n ∈ σ.tables.watermark.pending, σ.tables.watermark.visible < n
  listed : σ.tables.Listed
  claimed : ∀ s, σ.tables.hasAt s = true →
    (σ.tables.bucketAt s).keys ≠ ∅ ∨ ∃ a ∈ σ.appends, a.Claims σ.tables.time.width s

theorem Stage.id?_of_kept? {g : Stage} {i : RecordId} (h : g.kept? = some i) : g.id? = some i := by
  cases g <;> first | exact h | cases h

theorem Stage.id?_of_finished? {g : Stage} {i : RecordId} (h : g.finished? = some i) :
    g.id? = some i := by
  cases g <;> first | exact h | cases h

theorem mem_middle {x a : Append} {as bs : List Append} : x ∈ as ++ a :: bs ↔ x = a ∨ x ∈ as ++ bs :=
  List.perm_middle.mem_iff.trans List.mem_cons

theorem exists_mem_middle {P : Append → Prop} {a : Append} {as bs : List Append} :
    (∃ x ∈ as ++ a :: bs, P x) ↔ P a ∨ ∃ x ∈ as ++ bs, P x := by
  simp only [mem_middle, or_and_right, exists_or, exists_eq_left]

namespace State.Sound

variable {r : Trace} {t t' : TraceTables} {g g' : Stage} {as bs : List Append}

theorem eq_of_id? {σ : State} (h : σ.Sound) {i : RecordId} {a b : Append} (ha : a ∈ σ.appends)
    (hb : b ∈ σ.appends) (hai : a.stage.id? = some i) (hbi : b.stage.id? = some i) : a = b := by
  by_contra hne
  have : Std.Symm fun a b : Append => ∀ i, a.stage.id? = some i → b.stage.id? ≠ some i :=
    ⟨fun a b hab i hb ha => hab i ha hb⟩
  exact h.distinct.forall ha hb hne i hai hbi

theorem not_finished {σ : State} (h : σ.Sound) {i : RecordId} {a : Append} (ha : a ∈ σ.appends)
    (hi : a.stage.id? = some i) (hopen : a.stage.finished? = none) : ¬σ.tables.watermark.Finished i.val := by
  intro hf
  obtain ⟨b, hb, j, hj, hji⟩ := (h.finished i.val).mp hf
  obtain rfl := RecordId.eq_of_val_eq hji
  obtain rfl := h.eq_of_id? ha hb hi (Stage.id?_of_finished? hj)
  rw [hopen] at hj
  cases hj

theorem others_distinct (h : Sound ⟨t, as ++ ⟨r, g⟩ :: bs⟩) {i : RecordId} (hi : g.id? = some i) :
    ∀ x ∈ as ++ bs, x.stage.id? ≠ some i := by
  have hp := (List.pairwise_middle fun {a b} hab i hb ha => hab i ha hb).mp h.distinct
  exact fun x hx => (List.pairwise_cons.mp hp).1 x hx i hi

theorem others_exclusive (h : Sound ⟨t, as ++ ⟨r, g⟩ :: bs⟩) {s : Slot}
    (hs : Append.Holds t.time.width ⟨r, g⟩ s) : ∀ x ∈ as ++ bs, ¬x.Holds t.time.width s := by
  have hp := (List.pairwise_middle fun {a b} hab s hb ha => hab s ha hb).mp h.exclusive
  exact fun x hx => (List.pairwise_cons.mp hp).1 x hx s hs

variable (h : Sound ⟨t, as ++ ⟨r, g⟩ :: bs⟩) (ha : Advance r t g t' g')
include h ha

theorem advance_kept (i : RecordId) (x : Trace) : t'.traces.get? i = some x ↔
    ∃ a ∈ as ++ ⟨r, g'⟩ :: bs, a.stage.kept? = some i ∧ a.record = x := by
  have hk := h.kept i x
  rw [exists_mem_middle] at hk ⊢
  rcases ha.traces_cases with ⟨j, rfl, rfl, ht⟩ | ⟨ht, hg⟩
  · have hfresh : ∀ a ∈ as ++ bs, a.stage.kept? ≠ some j := fun a ha hj =>
      h.others_distinct (i := j) rfl a ha (Stage.id?_of_kept? hj)
    rw [ht, OrderedMap.get?_insert]
    by_cases hij : i = j
    · subst hij
      rw [if_pos rfl]
      constructor
      · intro hr
        exact .inl ⟨rfl, Option.some.inj hr⟩
      · rintro (⟨-, rfl⟩ | ⟨a, ha, hi, -⟩)
        · rfl
        · exact absurd hi (hfresh a ha)
    · rw [if_neg hij, hk]
      refine or_congr_left ?_
      simp [Stage.kept?, Ne.symm hij]
  · rw [ht, hk, hg]

theorem advance_numbered (n : Nat) : n < t'.watermark.reserved ↔
    ∃ a ∈ as ++ ⟨r, g'⟩ :: bs, ∃ i, a.stage.id? = some i ∧ i.val = n := by
  have hn := h.numbered n
  rw [exists_mem_middle] at hn ⊢
  rcases ha.watermark_cases with ⟨i, hw, hg, hg', -, -⟩ | ⟨i, hw, hg, hg', -, -⟩ | ⟨hw, hg, -⟩
  · obtain ⟨hi, hw⟩ := (Watermark.reserve?_eq_some_iff _).mp hw
    simp only [hg, hg', reduceCtorEq, false_and, exists_false, false_or, Option.some.injEq,
      exists_eq_left'] at hn ⊢
    rw [hw, ← hn, hi]
    exact Nat.lt_succ_iff_lt_or_eq.trans (or_comm.trans (or_congr_left eq_comm))
  · rw [hw, hg']
    rw [hg] at hn
    exact hn
  · rw [hw, hg]
    exact hn

theorem advance_distinct : (as ++ ⟨r, g'⟩ :: bs).Pairwise fun a b : Append =>
    ∀ i, a.stage.id? = some i → b.stage.id? ≠ some i := by
  have hp := (List.pairwise_middle fun {a b} hab i hb ha => hab i ha hb).mp h.distinct
  obtain ⟨hfst, hrest⟩ := List.pairwise_cons.mp hp
  refine (List.pairwise_middle fun {a b} hab i hb ha => hab i ha hb).mpr
    (List.pairwise_cons.mpr ⟨?_, hrest⟩)
  rcases ha.watermark_cases with ⟨i, hw, -, hg', -, -⟩ | ⟨i, -, hg, hg', -, -⟩ | ⟨-, hg, -⟩
  · obtain ⟨hi, -⟩ := (Watermark.reserve?_eq_some_iff _).mp hw
    intro b hb j hj hbj
    rw [hg', Option.some.injEq] at hj
    subst hj
    have hlt : i.val < t.watermark.reserved :=
      (h.numbered i.val).mpr (exists_mem_middle.mpr (.inr ⟨b, hb, i, hbj, rfl⟩))
    exact absurd hi hlt.ne
  · rw [hg']
    rwa [hg] at hfst
  · rw [hg]
    exact hfst

theorem advance_finished (n : Nat) : t'.watermark.Finished n ↔
    ∃ a ∈ as ++ ⟨r, g'⟩ :: bs, ∃ i, a.stage.finished? = some i ∧ i.val = n := by
  have hn := h.finished n
  rw [exists_mem_middle] at hn ⊢
  rcases ha.watermark_cases with ⟨i, hw, -, -, hg, hg'⟩ | ⟨i, hw, -, -, hg, hg'⟩ | ⟨hw, -, hg⟩
  · obtain ⟨-, hw⟩ := (Watermark.reserve?_eq_some_iff _).mp hw
    rw [hw, hg']
    rw [hg] at hn
    exact hn
  · simp only [hg, hg', reduceCtorEq, false_and, exists_false, false_or, Option.some.injEq,
      exists_eq_left'] at hn ⊢
    rw [hw, Watermark.finished_finish, hn, eq_comm]
  · rw [hw, hg]
    exact hn

theorem advance_waiting : ∀ n ∈ t'.watermark.pending, t'.watermark.visible < n := by
  rcases ha.watermark_cases with ⟨i, hw, -, -, -, -⟩ | ⟨i, hw, hid, -, hg, -⟩ | ⟨hw, -, -⟩
  · obtain ⟨-, hw⟩ := (Watermark.reserve?_eq_some_iff _).mp hw
    rw [hw]
    exact h.waiting
  · rw [hw]
    -- a number below the mark is finished, but this one is not
    have hopen := h.not_finished (mem_middle.mpr (.inl rfl)) hid hg
    exact Watermark.waiting_finish _ (not_lt.mp fun hlt => hopen (.inl hlt)) h.waiting
  · rw [hw]
    exact h.waiting

omit h in
theorem width_eq : t'.time.width = t.time.width := ha.settings_width.2

theorem advance_indexed (s : Slot) (k : Index.Key) : k ∈ (t'.bucketAt s).keys ↔
    ∃ a ∈ as ++ ⟨r, g'⟩ :: bs, a.Indexes t'.time.width s k := by
  have hk := h.indexed s k
  rw [width_eq ha]
  rw [exists_mem_middle] at hk ⊢
  have hsame (hb : (t'.bucketAt s).keys = (t.bucketAt s).keys) (hg : g'.indexed = g.indexed) :
      k ∈ (t'.bucketAt s).keys ↔ Append.Indexes t.time.width ⟨r, g'⟩ s k ∨
        ∃ a ∈ as ++ bs, a.Indexes t.time.width s k := by
    rw [hb, Append.Indexes, hg]
    exact hk
  rcases ha.bucket_cases with ⟨d, hl, -, hg, -⟩ | ⟨i, d, rfl, -, -, hg, -⟩ | ⟨d, -, rfl, -, hg, -⟩ |
    ⟨d, rfl, -, -, hg, -⟩ | ⟨hb, -, -, -, hg, -⟩
  · refine hsame ?_ hg
    rw [TraceTables.bucketAt_of_lockAt hl]
    split <;> rfl
  · rw [Append.indexes_append_iff hg, or_right_comm, TraceTables.bucketAt_putAt rfl]
    have hk : k ∈ (t.bucketAt s).keys ↔ _ := hk
    rw [← hk]
    by_cases hs : Slot.of? t.time.width r d = some s
    · rw [if_pos hs, OrderedSet.mem_insert, or_comm]
      exact or_congr_right ⟨fun hk => ⟨hs, hk⟩, And.right⟩
    · rw [if_neg hs]
      exact ⟨.inl, fun hk => hk.resolve_right fun hk => hs hk.1⟩
  · refine hsame ?_ hg
    rw [TraceTables.bucketAt_releaseAt]
    split <;> rfl
  · exact hsame (by rw [TraceTables.bucketAt_pruneAt]) hg
  · exact hsame (by rw [hb]) hg

theorem advance_held (s : Slot) : (t'.bucketAt s).held = true ↔
    ∃ a ∈ as ++ ⟨r, g'⟩ :: bs, a.Holds t'.time.width s := by
  have hh := h.held s
  rw [width_eq ha]
  rw [exists_mem_middle] at hh ⊢
  have hsame (hb : (t'.bucketAt s).held = (t.bucketAt s).held) (hg : g'.held = g.held) :
      (t'.bucketAt s).held = true ↔ Append.Holds t.time.width ⟨r, g'⟩ s ∨
        ∃ a ∈ as ++ bs, a.Holds t.time.width s := by
    rw [hb, Append.Holds, hg]
    exact hh
  rcases ha.bucket_cases with ⟨d, hl, hg, -⟩ | ⟨i, d, rfl, hg, hg', -⟩ | ⟨d, hd, rfl, hg, -⟩ |
    ⟨d, rfl, hg, hg', -⟩ | ⟨hb, -, -, hg, -⟩
  · have hh : (t.bucketAt s).held = true ↔ _ := hh
    rw [Append.holds_append_iff hg, or_right_comm, ← hh, TraceTables.bucketAt_of_lockAt hl]
    by_cases hs : Slot.of? t.time.width r d = some s
    · simp [hs]
    · simp [hs]
  · refine hsame ?_ (hg'.trans hg.symm)
    rw [TraceTables.bucketAt_putAt rfl]
    split <;> rfl
  · have hh : (t.bucketAt s).held = true ↔ _ := hh
    rw [Append.holds_filter_iff hg, TraceTables.bucketAt_releaseAt]
    by_cases hs : Slot.of? t.time.width r d = some s
    · have hothers := h.others_exclusive (s := s) ⟨d, hd, hs⟩
      rw [if_pos hs]
      refine ⟨fun hf => absurd hf (by simp), ?_⟩
      rintro (⟨-, hne⟩ | ⟨a, ha, hs⟩)
      · exact absurd hs hne
      · exact absurd hs (hothers a ha)
    · rw [if_neg hs, hh]
      exact or_congr_left ⟨fun hg => ⟨hg, hs⟩, And.left⟩
  · exact hsame (by rw [TraceTables.bucketAt_pruneAt]) (hg'.trans hg.symm)
  · exact hsame (by rw [hb]) hg

theorem advance_exclusive : (as ++ ⟨r, g'⟩ :: bs).Pairwise fun a b : Append =>
    ∀ s, a.Holds t'.time.width s → ¬b.Holds t'.time.width s := by
  rw [width_eq ha]
  have hp := (List.pairwise_middle fun {a b} hab s hb ha => hab s ha hb).mp h.exclusive
  obtain ⟨-, hrest⟩ := List.pairwise_cons.mp hp
  refine (List.pairwise_middle fun {a b} hab s hb ha => hab s ha hb).mpr
    (List.pairwise_cons.mpr ⟨fun b hb s hs => ?_, hrest⟩)
  have hold (hg : g'.held ⊆ g.held) : ¬b.Holds t.time.width s := h.others_exclusive (hs.mono hg) b hb
  rcases ha.bucket_cases with ⟨d, hl, hg, -⟩ | ⟨i, d, -, hg, hg', -⟩ | ⟨d, -, -, hg, -⟩ |
    ⟨d, -, hg, hg', -⟩ | ⟨-, -, -, hg, -⟩
  · rcases (Append.holds_append_iff hg).mp hs with hs | hs
    · exact h.others_exclusive hs b hb
    · intro hb'
      have hfree := TraceTables.exists_lockAt_iff.mp ⟨t', hl⟩ s hs
      have hheld := (h.held s).mpr (exists_mem_middle.mpr (.inr ⟨b, hb, hb'⟩))
      rw [hfree] at hheld
      cases hheld
  · exact hold (by rw [hg, hg']; exact List.Subset.refl _)
  · exact hold (by rw [hg]; exact List.filter_subset_self _)
  · exact hold (by rw [hg, hg']; exact List.Subset.refl _)
  · exact hold (by rw [hg]; exact List.Subset.refl _)

theorem advance_listed : t'.Listed := by
  rcases ha.bucket_cases with ⟨d, hl, -⟩ | ⟨i, d, rfl, hg, -⟩ | ⟨d, -, rfl, -⟩ | ⟨d, rfl, -⟩ |
    ⟨-, hs, hd, -⟩
  · exact TraceTables.lockAt_listed hl h.listed
  · refine TraceTables.putAt_listed rfl (fun s hs => TraceTables.hasAt_of_held ?_) h.listed
    exact (h.held s).mpr (exists_mem_middle.mpr (.inl ⟨d, by rw [hg]; exact d.mem_all, hs⟩))
  · exact TraceTables.releaseAt_listed h.listed
  · exact TraceTables.pruneAt_listed h.listed
  · intro n
    rw [hd, hs]
    exact h.listed n

theorem advance_claimed (s : Slot) (hs : t'.hasAt s = true) : (t'.bucketAt s).keys ≠ ∅ ∨
    ∃ a ∈ as ++ ⟨r, g'⟩ :: bs, a.Claims t'.time.width s := by
  rw [width_eq ha]
  rw [exists_mem_middle]
  have hkeys (hne : (t.bucketAt s).keys ≠ ∅) : (t'.bucketAt s).keys ≠ ∅ := by
    obtain ⟨k, hk⟩ := OrderedSet.ne_empty_iff.mp hne
    have hi := (h.indexed s k).mp hk
    refine OrderedSet.ne_empty_iff.mpr ⟨k, (h.advance_indexed ha s k).mpr ?_⟩
    rw [width_eq ha]
    rw [exists_mem_middle] at hi ⊢
    exact hi.imp_left (Append.Indexes.mono ha.indexed_subset)
  have hold (hs : t.hasAt s = true) (hg : g.claimed ⊆ g'.claimed) : (t'.bucketAt s).keys ≠ ∅ ∨
      Append.Claims t.time.width ⟨r, g'⟩ s ∨ ∃ a ∈ as ++ bs, a.Claims t.time.width s := by
    have hc := h.claimed s hs
    rw [exists_mem_middle] at hc
    exact hc.imp hkeys (Or.imp_left (Append.Claims.mono hg))
  rcases ha.bucket_cases with ⟨d, hl, -, -, hg⟩ | ⟨i, d, rfl, -, -, -, hg, hg'⟩ | ⟨d, -, rfl, -, -, hg⟩ |
    ⟨d, rfl, hg, -, -, hc⟩ | ⟨-, hh, -, -, -, hg⟩
  · rcases (TraceTables.hasAt_of_lockAt hl).mp hs with hs | hs
    · exact .inr (.inl ⟨d, by simp [hg], hs⟩)
    · exact hold hs (by rw [hg]; exact List.subset_append_left _ _)
  · rcases (TraceTables.hasAt_putAt rfl).mp hs with hs | hs
    · exact .inr (.inl ⟨d, by simp [hg'], hs⟩)
    · exact hold hs (by rw [hg, hg']; exact List.Subset.refl _)
  · exact hold (by rwa [TraceTables.hasAt_releaseAt] at hs) hg
  · obtain ⟨hhas, hidle⟩ := TraceTables.hasAt_pruneAt.mp hs
    by_cases hempty : (t.bucketAt s).keys = ∅
    · have hclaims := (h.claimed s hhas).resolve_left (not_not_intro hempty)
      rw [exists_mem_middle] at hclaims
      rcases hclaims with ⟨e, he, hes⟩ | hothers
      · rw [hc] at he
        rcases List.mem_cons.mp he with rfl | he
        · -- an empty bucket that was not pruned is held, and not by this append
          have hheld : (t.bucketAt s).held = true := by
            by_contra hfree
            exact hidle ⟨hes, hhas, Bool.eq_false_iff.mpr hfree, hempty⟩
          rcases exists_mem_middle.mp ((h.held s).mp hheld) with ⟨f, hf, -⟩ | ⟨x, hx, f, hf, hs⟩
          · rw [hg] at hf
            cases hf
          · exact .inr (.inr ⟨x, hx, f, Stage.mem_claimed_of_mem_held hf, hs⟩)
        · exact .inr (.inl ⟨e, he, hes⟩)
      · exact .inr (.inr hothers)
    · exact .inl (hkeys hempty)
  · exact hold (by rwa [hh] at hs) hg

theorem advance : Sound ⟨t', as ++ ⟨r, g'⟩ :: bs⟩ where
  kept := h.advance_kept ha
  indexed := h.advance_indexed ha
  held := h.advance_held ha
  exclusive := h.advance_exclusive ha
  numbered := h.advance_numbered ha
  distinct := h.advance_distinct ha
  finished := h.advance_finished ha
  waiting := h.advance_waiting ha
  listed := h.advance_listed ha
  claimed := h.advance_claimed ha

omit h ha in
theorem start_append (h : Sound ⟨t, as⟩) : Sound ⟨t, as ++ [.start r]⟩ := by
  have hexists {P : Append → Prop} (hp : ¬P (.start r)) :
      (∃ a ∈ as ++ [.start r], P a) ↔ ∃ a ∈ as, P a := by
    rw [exists_mem_middle, List.append_nil]
    exact or_iff_right hp
  have hpairwise {R : Append → Append → Prop} (has : as.Pairwise R)
      (hr : ∀ a, R a (.start r)) :
      (as ++ [Append.start r]).Pairwise R := by
    refine List.pairwise_append.mpr ⟨has, List.pairwise_singleton R _, fun a _ b hb => ?_⟩
    rw [List.mem_singleton.mp hb]
    exact hr a
  constructor
  · intro i x
    rw [hexists (by simp [Append.start, Stage.kept?])]
    exact h.kept i x
  · intro s k
    rw [hexists (by simp [Append.start, Append.Indexes, Stage.indexed])]
    exact h.indexed s k
  · intro s
    rw [hexists (by simp [Append.start, Append.Holds, Stage.held])]
    exact h.held s
  · exact hpairwise h.exclusive fun a s _ => by simp [Append.start, Append.Holds, Stage.held]
  · intro n
    rw [hexists (by simp [Append.start, Stage.id?])]
    exact h.numbered n
  · exact hpairwise h.distinct fun a i _ => by simp [Append.start, Stage.id?]
  · intro n
    rw [hexists (by simp [Append.start, Stage.finished?])]
    exact h.finished n
  · exact h.waiting
  · exact h.listed
  · intro s hs
    rw [hexists (by simp [Append.start, Append.Claims, Stage.claimed])]
    exact h.claimed s hs

end State.Sound

theorem State.start_sound (settings : Settings) : (State.start settings).Sound := by
  have hbucket (s : Slot) : (TraceTables.ofSettings settings).bucketAt s = {} := by cases s <;> rfl
  have hhas (s : Slot) : (TraceTables.ofSettings settings).hasAt s = false := by cases s <;> rfl
  have hnone (n : Nat) : ¬(∅ : Watermark).Finished n := by
    rintro (hn | hn)
    · exact Nat.not_lt_zero n hn
    · exact OrderedSet.not_mem_empty hn
  constructor
  · simp [start, TraceTables.ofSettings]
  · simp [start, hbucket]
  · simp [start, hbucket]
  · exact List.Pairwise.nil
  · intro n
    simp only [start, List.not_mem_nil, false_and, exists_false, iff_false]
    exact Nat.not_lt_zero n
  · exact List.Pairwise.nil
  · intro n
    simp only [start, List.not_mem_nil, false_and, exists_false, iff_false]
    exact hnone n
  · exact fun n hn => absurd hn OrderedSet.not_mem_empty
  · intro n
    rw [start, hhas]
    exact iff_of_false OrderedSet.not_mem_empty Bool.false_ne_true
  · simp [start, hhas]

theorem Step.sound {σ σ' : State} (h : Step σ σ') (hs : σ.Sound) : σ'.Sound := by
  cases h with
  | start r => exact hs.start_append
  | advance ha => exact hs.advance ha

theorem Run.sound {σ σ' : State} (h : Run σ σ') (hs : σ.Sound) : σ'.Sound := by
  induction h with
  | refl => exact hs
  | tail _ hstep ih => exact hstep.sound ih

end Interleaving
end FlightTrace
