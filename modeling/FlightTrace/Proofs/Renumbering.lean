import FlightTrace.Proofs.InterleavingInvariant

/-! Appends under other numbers. Two tables on which the same appends are under way, but for some that have come
to nothing, go on in step: whatever the appends do on one of them they can do on the other, as long as there are
numbers left. Only the numbers that they get may differ. -/
namespace FlightTrace

namespace TraceTables

/-- Two tables in which the same buckets are held and the same are empty, whether they are there or not. -/
structure Abreast (t t' : TraceTables) : Prop where
  width : t'.time.width = t.time.width
  held : ∀ s, (t'.bucketAt s).held = (t.bucketAt s).held
  empty : ∀ s, (t'.bucketAt s).keys = ∅ ↔ (t.bucketAt s).keys = ∅

variable {t t' u u' : TraceTables} {r : Trace} {d : Dimension}

theorem exists_reserve? (h : t.watermark.reserved < UInt64.size) :
    ∃ i u, t.reserve? = some (i, u) ∧ i.val = t.watermark.reserved :=
  ⟨⟨_, h⟩, _, reserve?_eq_some_iff.mpr ⟨_, (Watermark.reserve?_eq_some_iff _).mpr ⟨rfl, rfl⟩, rfl⟩, rfl⟩

theorem of_reserve? {i : RecordId} (h : t.reserve? = some (i, u)) :
    i.val = t.watermark.reserved ∧ u.watermark.reserved = t.watermark.reserved + 1 := by
  obtain ⟨w, hw, rfl⟩ := reserve?_eq_some_iff.mp h
  obtain ⟨hi, rfl⟩ := (Watermark.reserve?_eq_some_iff _).mp hw
  exact ⟨hi, rfl⟩

namespace Abreast

variable (h : t.Abreast t')
include h

theorem lockAt (hl : t.lockAt r d = .ok u) : ∃ u', t'.lockAt r d = .ok u' := by
  refine exists_lockAt_iff.mpr fun s hs => ?_
  rw [h.width] at hs
  rw [h.held]
  exact exists_lockAt_iff.mp ⟨u, hl⟩ s hs

theorem lockAt_error {e : Error} (hl : t.lockAt r d = .error e) : ∃ e', t'.lockAt r d = .error e' := by
  cases hl' : t'.lockAt r d with
  | error e' => exact ⟨e', rfl⟩
  | ok u' =>
    have hfree := exists_lockAt_iff.mp ⟨u', hl'⟩
    rw [h.width] at hfree
    obtain ⟨u, hu⟩ := exists_lockAt_iff.mpr fun s hs => (h.held s).symm.trans (hfree s hs)
    rw [hl] at hu
    cases hu

theorem used_eq (s : Slot) : (t'.bucketAt s).used = (t.bucketAt s).used := by
  have hempty : (t'.bucketAt s).keys.isEmpty = (t.bucketAt s).keys.isEmpty := by
    rw [Bool.eq_iff_iff, OrderedSet.isEmpty_iff, OrderedSet.isEmpty_iff, h.empty]
  rw [Index.Bucket.used, Index.Bucket.used, h.held, hempty]

variable {s : Slot} (hhas : t'.hasAt s = t.hasAt s)
include hhas

theorem hasAt_lockAt (hl : t.lockAt r d = .ok u) (hl' : t'.lockAt r d = .ok u') : u'.hasAt s = u.hasAt s := by
  rw [Bool.eq_iff_iff, hasAt_of_lockAt hl, hasAt_of_lockAt hl', h.width, hhas]

theorem hasAt_putAt (i i' : RecordId) :
    (t'.putAt r ⟨r.time, i'⟩ d).hasAt s = (t.putAt r ⟨r.time, i⟩ d).hasAt s := by
  rw [Bool.eq_iff_iff, TraceTables.hasAt_putAt rfl, TraceTables.hasAt_putAt rfl, h.width, hhas]

theorem hasAt_pruneAt : (t'.pruneAt r d).hasAt s = (t.pruneAt r d).hasAt s := by
  rw [Bool.eq_iff_iff, TraceTables.hasAt_pruneAt, TraceTables.hasAt_pruneAt, IdleAt, IdleAt, h.width, hhas,
    h.held, h.empty]

end Abreast
end TraceTables

namespace Interleaving

/-- How numbers are told in two tables, from a moment on in which one had given out `n` numbers and the other `n'`.
Those given out before stand for themselves, and the later ones are counted from there. -/
def Corresponds (n n' : Nat) (i i' : RecordId) : Prop :=
  (i.val < n ∧ i.val < n' ∧ i' = i) ∨ (n ≤ i.val ∧ n' ≤ i'.val ∧ i.val + n' = i'.val + n)

namespace Corresponds

variable {n n' : Nat} {i i' j j' : RecordId}

theorem symm (h : Corresponds n n' i i') : Corresponds n' n i' i := by
  rcases h with ⟨hi, hi', rfl⟩ | ⟨hi, hi', he⟩
  · exact .inl ⟨hi', hi, rfl⟩
  · exact .inr ⟨hi', hi, he.symm⟩

theorem compare_eq (h : Corresponds n n' i i') (hj : Corresponds n n' j j') : compare i j = compare i' j' := by
  have hlt : (i.val < j.val ↔ i'.val < j'.val) ∧ (j.val < i.val ↔ j'.val < i'.val) := by
    rcases h with ⟨hi, hi', rfl⟩ | ⟨hi, hi', he⟩ <;> rcases hj with ⟨hj, hj', rfl⟩ | ⟨hj, hj', he'⟩ <;> omega
  change compare i.val j.val = compare i'.val j'.val
  rcases Nat.lt_trichotomy i.val j.val with h | h | h
  · rw [Nat.compare_eq_lt.mpr h, Nat.compare_eq_lt.mpr (hlt.1.mp h)]
  · rw [Nat.compare_eq_eq.mpr h, Nat.compare_eq_eq.mpr (by omega)]
  · rw [Nat.compare_eq_gt.mpr h, Nat.compare_eq_gt.mpr (hlt.2.mp h)]

theorem le_iff (h : Corresponds n n' i i') (hj : Corresponds n n' j j') : i.val ≤ j.val ↔ i'.val ≤ j'.val := by
  rcases h with ⟨hi, hi', rfl⟩ | ⟨hi, hi', he⟩ <;> rcases hj with ⟨hj, hj', rfl⟩ | ⟨hj, hj', he'⟩ <;> omega

theorem eq_of_eq (h : Corresponds n n' i i') (hj : Corresponds n n' i j') : i' = j' := by
  refine RecordId.eq_of_val_eq ?_
  rcases h with ⟨hi, hi', rfl⟩ | ⟨hi, hi', he⟩ <;> rcases hj with ⟨hj, hj', rfl⟩ | ⟨hj, hj', he'⟩ <;> omega

end Corresponds

/-- Two stages that differ in their numbers at most. -/
inductive Stage.Alike (R : RecordId → RecordId → Prop) : Stage → Stage → Prop where
  | locking {held left} : Alike R (.locking held left) (.locking held left)
  | asking {i i'} (h : R i i') : Alike R (.asking i) (.asking i')
  | agreed {i i'} (h : R i i') : Alike R (.agreed i) (.agreed i')
  | indexing {i i' done left} (h : R i i') : Alike R (.indexing i done left) (.indexing i' done left)
  | releasing {i i' held} (h : R i i') : Alike R (.releasing i held) (.releasing i' held)
  | committed {i i'} (h : R i i') : Alike R (.committed i) (.committed i')
  | refused {i i'} (h : R i i') : Alike R (.refused i) (.refused i')
  | undoing {o o' held left} (h : Option.Rel R o o') : Alike R (.undoing o held left) (.undoing o' held left)

/-- The appends of two histories, one for one and in the same order, but for some in either that have come to
nothing and hold nothing any more. -/
inductive Matched (R : RecordId → RecordId → Prop) : List Append → List Append → Prop where
  | nil : Matched R [] []
  | cons {r g g' as as'} (hg : Stage.Alike R g g') (h : Matched R as as') :
    Matched R (⟨r, g⟩ :: as) (⟨r, g'⟩ :: as')
  | left {r o as as'} (h : Matched R as as') : Matched R (⟨r, .undoing o [] []⟩ :: as) as'
  | right {r o as as'} (h : Matched R as as') : Matched R as (⟨r, .undoing o [] []⟩ :: as')

section

variable {R R' : RecordId → RecordId → Prop} {g g' : Stage} {as as' bs bs' : List Append} {r : Trace}

namespace Stage.Alike

theorem flip (hR : ∀ i i', R i i' → R' i' i) (h : Alike R g g') : Alike R' g' g := by
  cases h with
  | locking => exact .locking
  | undoing h =>
    cases h with
    | none => exact .undoing .none
    | some h => exact .undoing (.some (hR _ _ h))
  | asking h => exact .asking (hR _ _ h)
  | agreed h => exact .agreed (hR _ _ h)
  | indexing h => exact .indexing (hR _ _ h)
  | releasing h => exact .releasing (hR _ _ h)
  | committed h => exact .committed (hR _ _ h)
  | refused h => exact .refused (hR _ _ h)

theorem refl (hR : ∀ i, g.id? = some i → R i i) : Alike R g g := by
  cases g with
  | locking held left => exact .locking
  | undoing o held left =>
    cases o with
    | none => exact .undoing .none
    | some i => exact .undoing (.some (hR i rfl))
  | asking i => exact .asking (hR i rfl)
  | agreed i => exact .agreed (hR i rfl)
  | indexing i done left => exact .indexing (hR i rfl)
  | releasing i held => exact .releasing (hR i rfl)
  | committed i => exact .committed (hR i rfl)
  | refused i => exact .refused (hR i rfl)

variable (h : Alike R g g')
include h

theorem held : g'.held = g.held := by cases h <;> rfl

theorem id? : Option.Rel R g.id? g'.id? := by
  cases h with
  | locking => exact .none
  | undoing h => exact h
  | asking h | agreed h | indexing h | releasing h | committed h | refused h => exact .some h

theorem finished? : Option.Rel R g.finished? g'.finished? := by
  cases h with
  | undoing h => exact h
  | committed h => exact .some h
  | _ => exact .none

theorem kept? : Option.Rel R g.kept? g'.kept? := by
  cases h with
  | indexing h | releasing h | committed h => exact .some h
  | _ => exact .none

theorem exists_indexed {d : Dimension} {i : RecordId} (hi : (d, i) ∈ g.indexed) :
    ∃ i', R i i' ∧ (d, i') ∈ g'.indexed := by
  have hmap {ds : List Dimension} {j j' : RecordId} (hR : R j j') (hi : (d, i) ∈ ds.map fun d => (d, j)) :
      ∃ i', R i i' ∧ (d, i') ∈ ds.map fun d => (d, j') := by
    obtain ⟨e, he, hei⟩ := List.mem_map.mp hi
    obtain ⟨rfl, rfl⟩ := Prod.mk.inj hei
    exact ⟨j', hR, List.mem_map.mpr ⟨e, he, rfl⟩⟩
  cases h with
  | indexing h | releasing h | committed h => exact hmap h hi
  | _ => cases hi

end Stage.Alike

namespace Matched

theorem flip (hR : ∀ i i', R i i' → R' i' i) (h : Matched R as as') : Matched R' as' as := by
  induction h with
  | nil => exact .nil
  | cons hg _ ih => exact .cons (hg.flip hR) ih
  | left _ ih => exact .right ih
  | right _ ih => exact .left ih

theorem refl (hR : ∀ a ∈ as, ∀ i, a.stage.id? = some i → R i i) : Matched R as as := by
  induction as with
  | nil => exact .nil
  | cons a as ih =>
    exact .cons (.refl (hR a List.mem_cons_self)) (ih fun b hb => hR b (List.mem_cons_of_mem a hb))

theorem append (h : Matched R as as') (hb : Matched R bs bs') : Matched R (as ++ bs) (as' ++ bs') := by
  induction h with
  | nil => exact hb
  | cons hg _ ih => exact .cons hg ih
  | left _ ih => exact .left ih
  | right _ ih => exact .right ih

theorem exists_of_mem (h : Matched R as as') {a : Append} (ha : a ∈ as) : (∃ o, a.stage = .undoing o [] []) ∨
    ∃ a' ∈ as', a'.record = a.record ∧ Stage.Alike R a.stage a'.stage := by
  induction h with
  | nil => cases ha
  | cons hg _ ih =>
    rcases List.mem_cons.mp ha with rfl | ha
    · exact .inr ⟨_, List.mem_cons_self, rfl, hg⟩
    · exact (ih ha).imp id fun ⟨a', ha', hr⟩ => ⟨a', List.mem_cons_of_mem _ ha', hr⟩
  | left _ ih =>
    rcases List.mem_cons.mp ha with rfl | ha
    · exact .inl ⟨_, rfl⟩
    · exact ih ha
  | right _ ih => exact (ih ha).imp id fun ⟨a', ha', hr⟩ => ⟨a', List.mem_cons_of_mem _ ha', hr⟩

/-- An append that has not come to nothing stands opposite to another, and they can go on together. -/
theorem middle (h : Matched R (as ++ ⟨r, g⟩ :: bs) as') : (∃ o, g = .undoing o [] []) ∨
    ∃ cs g' ds, as' = cs ++ ⟨r, g'⟩ :: ds ∧ g.Alike R g' ∧
      ∀ x x', Stage.Alike R x x' → Matched R (as ++ ⟨r, x⟩ :: bs) (cs ++ ⟨r, x'⟩ :: ds) := by
  generalize hl : as ++ ⟨r, g⟩ :: bs = l at h
  induction h generalizing as with
  | nil => cases as <;> cases hl
  | cons hg hs ih =>
    cases as with
    | nil =>
      cases hl
      exact .inr ⟨[], _, _, rfl, hg, fun x x' hx => .cons hx hs⟩
    | cons a as =>
      obtain ⟨rfl, rfl⟩ := List.cons.inj hl
      rcases ih rfl with ho | ⟨cs, g', ds, rfl, hg', hall⟩
      · exact .inl ho
      · exact .inr ⟨_ :: cs, g', ds, rfl, hg', fun x x' hx => .cons hg (hall x x' hx)⟩
  | left hs ih =>
    cases as with
    | nil =>
      cases hl
      exact .inl ⟨_, rfl⟩
    | cons a as =>
      obtain ⟨rfl, rfl⟩ := List.cons.inj hl
      rcases ih rfl with ho | ⟨cs, g', ds, rfl, hg', hall⟩
      · exact .inl ho
      · exact .inr ⟨cs, g', ds, rfl, hg', fun x x' hx => .left (hall x x' hx)⟩
  | right hs ih =>
    rcases ih hl with ho | ⟨cs, g', ds, rfl, hg', hall⟩
    · exact .inl ho
    · exact .inr ⟨_ :: cs, g', ds, rfl, hg', fun x x' hx => .right (hall x x' hx)⟩

end Matched
end

/-- The numbers of the appends, and those of the appends that have finished theirs, are as many as the table has
given out and counts as finished. -/
structure State.Counted (σ : State) : Prop where
  reserved : σ.tables.watermark.reserved = (σ.appends.filterMap (·.stage.id?)).length
  closed : σ.tables.watermark.closed = (σ.appends.filterMap (·.stage.finished?)).length

section

variable {settings : Settings} {σ σ' : State} {t t' : TraceTables} {r : Trace} {g g' : Stage} {as bs : List Append}

theorem length_filterMap_middle (f : Append → Option RecordId) (as : List Append) (a : Append) (bs : List Append) :
    ((as ++ a :: bs).filterMap f).length = ((as ++ bs).filterMap f).length + (f a).toList.length := by
  cases h : f a <;> simp [h, Nat.add_assoc]

theorem Advance.counts (hs : State.Sound ⟨t, as ++ ⟨r, g⟩ :: bs⟩) (h : Advance r t g t' g') :
    t'.watermark.reserved + g.id?.toList.length = t.watermark.reserved + g'.id?.toList.length ∧
    t'.watermark.closed + g.finished?.toList.length = t.watermark.closed + g'.finished?.toList.length := by
  rcases h.watermark_cases with ⟨i, hw, hg, hg', hf, hf'⟩ | ⟨i, hw, hg, hg', hf, hf'⟩ | ⟨hw, hg, hf⟩
  · obtain ⟨-, hw⟩ := (Watermark.reserve?_eq_some_iff _).mp hw
    rw [hw, hg, hg', hf, hf']
    exact ⟨rfl, rfl⟩
  · have hopen := hs.not_finished (mem_middle.mpr (.inl rfl)) hg hf
    rw [hw, Watermark.closed_finish _ hopen, hg, hg', hf, hf']
    exact ⟨rfl, rfl⟩
  · rw [hw, hg, hf]
    exact ⟨rfl, rfl⟩

theorem Run.counted (h : Run (.start settings) σ) : σ.Counted := by
  induction h with
  | refl => exact ⟨rfl, rfl⟩
  | tail hrun hstep ih =>
    have hs := Run.sound hrun (State.start_sound settings)
    cases hstep with
    | start r =>
      obtain ⟨hreserved, hclosed⟩ := ih
      constructor
      · rw [List.filterMap_append]
        simpa [Append.start, Stage.id?] using hreserved
      · rw [List.filterMap_append]
        simpa [Append.start, Stage.finished?] using hclosed
    | advance ha =>
      obtain ⟨hreserved, hclosed⟩ := ih
      obtain ⟨hr, hc⟩ := ha.counts hs
      constructor
      · rw [length_filterMap_middle] at hreserved ⊢
        simp only at hreserved ⊢
        omega
      · rw [length_filterMap_middle] at hclosed ⊢
        simp only at hclosed ⊢
        omega

theorem Advance.reserved_le (h : Advance r t g t' g') : t.watermark.reserved ≤ t'.watermark.reserved := by
  rcases h.watermark_cases with ⟨i, hw, -⟩ | ⟨i, hw, -⟩ | ⟨hw, -⟩
  · rw [((Watermark.reserve?_eq_some_iff _).mp hw).2]
    exact Nat.le_succ _
  · rw [hw]
    exact Nat.le_refl _
  · rw [hw]

end

theorem length_toList_of_rel {R : RecordId → RecordId → Prop} {o o' : Option RecordId} (h : Option.Rel R o o') :
    o'.toList.length = o.toList.length := by
  cases h <;> rfl

/-- As many numbers are in flight in two histories whose appends stand opposite to each other. -/
theorem Matched.counts {R : RecordId → RecordId → Prop} {as as' : List Append} (h : Matched R as as') :
    (as.filterMap (·.stage.id?)).length + (as'.filterMap (·.stage.finished?)).length =
      (as'.filterMap (·.stage.id?)).length + (as.filterMap (·.stage.finished?)).length := by
  have hcons (f : Append → Option RecordId) (a : Append) (as : List Append) :
      ((a :: as).filterMap f).length = (as.filterMap f).length + (f a).toList.length :=
    length_filterMap_middle f [] a as
  have hdone (o : Option RecordId) : (Stage.undoing o [] []).id? = (Stage.undoing o [] []).finished? := rfl
  induction h with
  | nil => rfl
  | cons hg _ ih =>
    have hid := length_toList_of_rel hg.id?
    have hfinished := length_toList_of_rel hg.finished?
    simp only [hcons]
    omega
  | left _ ih =>
    simp only [hcons, hdone]
    omega
  | right _ ih =>
    simp only [hcons, hdone]
    omega

/-- Two states reached with the same settings whose appends stand opposite to each other. Their numbers are told
from a moment on in which `n` and `n'` were given out. -/
structure State.Alike (settings : Settings) (n n' : Nat) (σ σ' : State) : Prop where
  reached : Run (.start settings) σ
  reached' : Run (.start settings) σ'
  appends : Matched (Corresponds n n') σ.appends σ'.appends
  le : n ≤ σ.tables.watermark.reserved
  le' : n' ≤ σ'.tables.watermark.reserved
  reserved : σ.tables.watermark.reserved + n' = σ'.tables.watermark.reserved + n

def KeysAlike (R : RecordId → RecordId → Prop) (k k' : Index.Key) : Prop := k'.time = k.time ∧ R k.id k'.id

section

variable {R : RecordId → RecordId → Prop} {as as' : List Append} {width : Int} {s : Slot} {k : Index.Key}

theorem Matched.exists_holds (h : Matched R as as') (ha : ∃ a ∈ as, a.Holds width s) :
    ∃ a' ∈ as', a'.Holds width s := by
  obtain ⟨a, ha, d, hd, hs⟩ := ha
  rcases h.exists_of_mem ha with ⟨o, ho⟩ | ⟨a', ha', hr, hg⟩
  · rw [ho] at hd
    cases hd
  · exact ⟨a', ha', d, hg.held ▸ hd, hr ▸ hs⟩

theorem Matched.exists_indexes (h : Matched R as as') (ha : ∃ a ∈ as, a.Indexes width s k) :
    ∃ k', KeysAlike R k k' ∧ ∃ a' ∈ as', a'.Indexes width s k' := by
  obtain ⟨a, ha, ⟨d, i⟩, hi, hs, rfl⟩ := ha
  rcases h.exists_of_mem ha with ⟨o, ho⟩ | ⟨a', ha', hr, hg⟩
  · rw [ho] at hi
    cases hi
  · obtain ⟨i', hR, hi'⟩ := hg.exists_indexed hi
    exact ⟨⟨a.record.time, i'⟩, ⟨rfl, hR⟩, a', ha', (d, i'), hi', hr ▸ hs, by rw [hr]⟩

end

namespace State.Alike

variable {settings : Settings} {n n' : Nat} {σ σ' τ : State}

theorem symm (h : σ.Alike settings n n' σ') : σ'.Alike settings n' n σ :=
  ⟨h.reached', h.reached, h.appends.flip fun _ _ => Corresponds.symm, h.le', h.le, h.reserved.symm⟩

variable (h : σ.Alike settings n n' σ')
include h

theorem sound : σ.Sound := h.reached.sound (start_sound settings)

theorem sound' : σ'.Sound := h.reached'.sound (start_sound settings)

theorem settings_eq : σ'.tables.settings = σ.tables.settings :=
  h.reached'.settings_width.1.trans h.reached.settings_width.1.symm

theorem width_eq : σ'.tables.time.width = σ.tables.time.width :=
  h.reached'.settings_width.2.trans h.reached.settings_width.2.symm

theorem held_of_held {s : Slot} (hs : (σ.tables.bucketAt s).held = true) : (σ'.tables.bucketAt s).held = true := by
  have hheld := h.appends.exists_holds ((h.sound.held s).mp hs)
  rw [← h.width_eq] at hheld
  exact (h.sound'.held s).mpr hheld

theorem exists_key {s : Slot} {k : Index.Key} (hk : k ∈ (σ.tables.bucketAt s).keys) :
    ∃ k' ∈ (σ'.tables.bucketAt s).keys, KeysAlike (Corresponds n n') k k' := by
  obtain ⟨k', hkk, hk'⟩ := h.appends.exists_indexes ((h.sound.indexed s k).mp hk)
  rw [← h.width_eq] at hk'
  exact ⟨k', (h.sound'.indexed s k').mpr hk', hkk⟩

theorem abreast : σ.tables.Abreast σ'.tables where
  width := h.width_eq
  held _ := Bool.eq_iff_iff.mpr ⟨h.symm.held_of_held, h.held_of_held⟩
  empty s := by
    have hne {n n' : Nat} {σ σ' : State} (h : σ.Alike settings n n' σ')
        (hne : (σ.tables.bucketAt s).keys ≠ ∅) : (σ'.tables.bucketAt s).keys ≠ ∅ := by
      obtain ⟨k, hk⟩ := OrderedSet.ne_empty_iff.mp hne
      obtain ⟨k', hk', -⟩ := h.exists_key hk
      exact OrderedSet.ne_empty_iff.mpr ⟨k', hk'⟩
    exact not_iff_not.mp ⟨hne h.symm, hne h⟩

theorem corresponds_reserved {i i' : RecordId} (hi : i.val = σ.tables.watermark.reserved)
    (hi' : i'.val = σ'.tables.watermark.reserved) : Corresponds n n' i i' := by
  obtain ⟨-, -, -, hle, hle', hreserved⟩ := h
  exact .inr (by omega)

end State.Alike

section

variable {n n' : Nat} {t t' u : TraceTables} {r : Trace} {g g' x : Stage}

theorem Advance.not_done {o : Option RecordId} (h : Advance r t g t' g') : g ≠ .undoing o [] [] := by
  rintro rfl
  cases h

/-- A step on one of two tables abreast can be taken on the other. A bucket that is there in both or in neither is so
after it. -/
theorem Advance.alike (h : Advance r t g u x) (hg : g.Alike (Corresponds n n') g') (ht : t.Abreast t')
    (hleft : t.reserve? ≠ none) (hreserve : ∀ i, t.reserve? = some (i, u) →
      ∃ i' u', t'.reserve? = some (i', u') ∧ Corresponds n n' i i') :
    ∃ u' x', Advance r t' g' u' x' ∧ x.Alike (Corresponds n n') x' ∧
      ∀ s, t'.hasAt s = t.hasAt s → u'.hasAt s = u.hasAt s := by
  cases h with
  | lock hl =>
    cases hg
    obtain ⟨u', hl'⟩ := ht.lockAt hl
    exact ⟨u', _, .lock hl', .locking, fun s hhas => ht.hasAt_lockAt hhas hl hl'⟩
  | timeout hl =>
    cases hg
    obtain ⟨e', hl'⟩ := ht.lockAt_error hl
    exact ⟨t', _, .timeout hl', .undoing .none, fun _ => id⟩
  | reserve hr =>
    cases hg
    obtain ⟨i', u', hr', hi⟩ := hreserve _ hr
    refine ⟨u', _, .reserve hr', .asking hi, fun s hhas => ?_⟩
    obtain ⟨w, -, rfl⟩ := TraceTables.reserve?_eq_some_iff.mp hr
    obtain ⟨w', -, rfl⟩ := TraceTables.reserve?_eq_some_iff.mp hr'
    exact hhas
  | exhaust hr => exact absurd hr hleft
  | agree =>
    cases hg with
    | asking hi => exact ⟨t', _, .agree, .agreed hi, fun _ => id⟩
  | refuse =>
    cases hg with
    | asking hi => exact ⟨t', _, .refuse, .refused hi, fun _ => id⟩
  | keep =>
    cases hg with
    | agreed hi => exact ⟨_, _, .keep, .indexing hi, fun _ => id⟩
  | index =>
    cases hg with
    | indexing hi => exact ⟨_, _, .index, .indexing hi, fun s hhas => ht.hasAt_putAt hhas _ _⟩
  | indexed =>
    cases hg with
    | indexing hi => exact ⟨t', _, .indexed, .releasing hi, fun _ => id⟩
  | release hd =>
    cases hg with
    | releasing hi =>
      refine ⟨_, _, .release hd, .releasing hi, fun s hhas => ?_⟩
      rw [TraceTables.hasAt_releaseAt, TraceTables.hasAt_releaseAt, hhas]
  | commit =>
    cases hg with
    | releasing hi => exact ⟨_, _, .commit, .committed hi, fun _ => id⟩
  | retire =>
    cases hg with
    | refused hi => exact ⟨_, _, .retire, .undoing (.some hi), fun _ => id⟩
  | unlock hd =>
    cases hg with
    | undoing ho =>
      refine ⟨_, _, .unlock hd, .undoing ho, fun s hhas => ?_⟩
      rw [TraceTables.hasAt_releaseAt, TraceTables.hasAt_releaseAt, hhas]
  | prune =>
    cases hg with
    | undoing ho => exact ⟨_, _, .prune, .undoing ho, fun s hhas => ht.hasAt_pruneAt hhas⟩

end

theorem Step.reserved_le {σ σ' : State} (h : Step σ σ') :
    σ.tables.watermark.reserved ≤ σ'.tables.watermark.reserved := by
  cases h with
  | start r => exact Nat.le_refl _
  | advance ha => exact ha.reserved_le

namespace State.Alike

variable {settings : Settings} {n n' : Nat} {σ σ' τ : State}

/-- A step of one history can be taken in the other, unless it uses up the last number. -/
theorem step (h : σ.Alike settings n n' σ') (hn : n' ≤ n + 1) (hstep : Step σ τ)
    (hleft : τ.tables.watermark.reserved < UInt64.size) :
    ∃ τ', Step σ' τ' ∧ τ.Alike settings n n' τ' ∧
      ∀ s, σ'.tables.hasAt s = σ.tables.hasAt s → τ'.tables.hasAt s = τ.tables.hasAt s := by
  obtain ⟨t', as'⟩ := σ'
  cases hstep with
  | start r =>
    refine ⟨⟨t', as' ++ [.start r]⟩, .start r, ?_, fun _ => id⟩
    exact ⟨h.reached.tail (.start r), h.reached'.tail (.start r), h.appends.append (.cons .locking .nil), h.le,
      h.le', h.reserved⟩
  | advance ha =>
    rename_i t u as bs r g x
    rcases h.appends.middle with ⟨o, hdone⟩ | ⟨cs, g', ds, hcs, hg, hall⟩
    · exact absurd hdone ha.not_done
    · subst hcs
      have hreserved : t.watermark.reserved + n' = t'.watermark.reserved + n := h.reserved
      have hsome : t.reserve? ≠ none := by
        obtain ⟨i, u', hi, -⟩ := TraceTables.exists_reserve? (Nat.lt_of_le_of_lt ha.reserved_le hleft)
        simp [hi]
      obtain ⟨u', x', ha', hx, hhas⟩ := ha.alike hg h.abreast hsome fun i hi => by
        obtain ⟨hval, hnext⟩ := TraceTables.of_reserve? hi
        simp only at hleft
        obtain ⟨i', u', hi', hval'⟩ := TraceTables.exists_reserve? (t := t') (by omega)
        exact ⟨i', u', hi', h.corresponds_reserved hval hval'⟩
      refine ⟨_, .advance ha', ?_, hhas⟩
      have hcount := (ha.counts h.sound).1
      have hcount' := (ha'.counts h.sound').1
      rw [length_toList_of_rel hg.id?, length_toList_of_rel hx.id?] at hcount'
      exact {
        reached := h.reached.tail (.advance ha)
        reached' := h.reached'.tail (.advance ha')
        appends := hall x x' hx
        le := h.le.trans ha.reserved_le
        le' := h.le'.trans ha'.reserved_le
        reserved := by
          change u.watermark.reserved + n' = u'.watermark.reserved + n
          omega }

theorem run (h : σ.Alike settings n n' σ') (hn : n' ≤ n + 1) (hrun : Run σ τ)
    (hleft : τ.tables.watermark.reserved < UInt64.size) :
    ∃ τ', Run σ' τ' ∧ τ.Alike settings n n' τ' ∧
      ∀ s, σ'.tables.hasAt s = σ.tables.hasAt s → τ'.tables.hasAt s = τ.tables.hasAt s := by
  induction hrun with
  | refl => exact ⟨σ', .refl, h, fun _ => id⟩
  | tail _ hstep ih =>
    obtain ⟨υ', hrun', hυ, hhas⟩ := ih (Nat.lt_of_le_of_lt hstep.reserved_le hleft)
    obtain ⟨τ', hstep', hτ, hhas'⟩ := hυ.step hn hstep hleft
    exact ⟨τ', hrun'.tail hstep', hτ, fun s hs => hhas' s (hhas s hs)⟩

end State.Alike

end Interleaving
end FlightTrace
