import FlightTrace.Proofs.Interleaving

/-! A whole append as a run. When one append takes all of its steps without another between them, the tables
become what the append makes of them as one operation; so the steps are those of the append. Between its start
and its end it asks the hook once; all other steps leave everything but the tables alone. -/
namespace FlightTrace
namespace Interleaving

variable {t t' : TraceTables} {r : Trace}

def Stage.asks : Stage → Bool
  | asking _ => true
  | _ => false

/-- Steps of one append, without that in which the hook answers. -/
abbrev Quiet (r : Trace) : TraceTables × Stage → TraceTables × Stage → Prop :=
  Relation.ReflTransGen fun p q => Advance r p.1 p.2 q.1 q.2 ∧ p.2.asks = false

theorem Quiet.step {g g' : Stage} (h : Advance r t g t' g') (hg : g.asks = false) :
    Quiet r (t, g) (t', g') :=
  Relation.ReflTransGen.single ⟨h, hg⟩

theorem Run.advance (as : List Append) {g g' : Stage} (h : Advance r t g t' g') (bs : List Append) :
    Run ⟨t, as ++ ⟨r, g⟩ :: bs⟩ ⟨t', as ++ ⟨r, g'⟩ :: bs⟩ := Relation.ReflTransGen.single (.advance h)

theorem Quiet.run {g g' : Stage} (h : Quiet r (t, g) (t', g')) (as bs : List Append) :
    Run ⟨t, as ++ ⟨r, g⟩ :: bs⟩ ⟨t', as ++ ⟨r, g'⟩ :: bs⟩ :=
  Relation.ReflTransGen.lift (p := Step)
    (fun p : TraceTables × Stage => (⟨p.1, as ++ ⟨r, p.2⟩ :: bs⟩ : State)) (fun _ _ hs => .advance hs.1) _ _ h

theorem quiet_lock (done held left : List Dimension)
    (h : done.foldlM (fun t d => t.lockAt r d) t = .ok t') :
    Quiet r (t, .locking held (done ++ left)) (t', .locking (held ++ done) left) := by
  induction done generalizing t held with
  | nil =>
    cases h
    rw [List.append_nil]
    exact .refl
  | cons d done ih =>
    obtain ⟨t₁, hd, hdone⟩ := TraceTables.locks_cons_iff.mp h
    have hrest := ih (held ++ [d]) hdone
    rw [List.append_assoc] at hrest
    exact (Quiet.step (.lock hd) rfl).trans hrest

theorem quiet_index (i : RecordId) (left : List Dimension) (done : List Dimension) :
    Quiet r (t, .indexing i done left)
      (left.foldl (fun t d => t.putAt r ⟨r.time, i⟩ d) t, .indexing i (done ++ left) []) := by
  induction left generalizing t done with
  | nil => rw [List.append_nil]; exact .refl
  | cons d left ih =>
    have hrest := ih (done ++ [d]) (t := t.putAt r ⟨r.time, i⟩ d)
    rw [List.append_assoc] at hrest
    exact (Quiet.step .index rfl).trans hrest

theorem filter_ne_of_nodup {d : Dimension} {ds : List Dimension} (h : (d :: ds).Nodup) :
    (d :: ds).filter (· ≠ d) = ds := by
  rw [List.filter_cons_of_neg (by simp)]
  refine List.filter_eq_self.mpr fun e he => decide_eq_true ?_
  rintro rfl
  exact (List.nodup_cons.mp h).1 he

theorem quiet_release (i : RecordId) (held : List Dimension) (hn : held.Nodup) :
    Quiet r (t, .releasing i held) (held.foldl (fun t d => t.releaseAt r d) t, .releasing i []) := by
  induction held generalizing t with
  | nil => exact .refl
  | cons d held ih =>
    have hstep : Quiet r (t, .releasing i (d :: held)) _ := Quiet.step (.release List.mem_cons_self) rfl
    rw [filter_ne_of_nodup hn] at hstep
    exact hstep.trans (ih (List.nodup_cons.mp hn).2)

theorem quiet_unlock (o : Option RecordId) (held : List Dimension) (hn : held.Nodup) :
    Quiet r (t, .undoing o held Dimension.all)
      (held.foldl (fun t d => t.releaseAt r d) t, .undoing o [] Dimension.all) := by
  induction held generalizing t with
  | nil => exact .refl
  | cons d held ih =>
    have hstep : Quiet r (t, .undoing o (d :: held) Dimension.all) _ :=
      Quiet.step (.unlock List.mem_cons_self) rfl
    rw [filter_ne_of_nodup hn] at hstep
    exact hstep.trans (ih (List.nodup_cons.mp hn).2)

theorem quiet_prune (o : Option RecordId) (left : List Dimension) :
    Quiet r (t, .undoing o [] left) (left.foldl (fun t d => t.pruneAt r d) t, .undoing o [] []) := by
  induction left generalizing t with
  | nil => exact .refl
  | cons d left ih => exact (Quiet.step .prune rfl).trans ih

theorem quiet_undo (o : Option RecordId) (held : List Dimension) (hn : held.Nodup) :
    Quiet r (t, .undoing o held Dimension.all)
      ((held.foldl (fun t d => t.releaseAt r d) t).prune r, .undoing o [] []) := by
  rw [TraceTables.prune_eq_foldl]
  exact (quiet_unlock o held hn).trans (quiet_prune o Dimension.all)

theorem quiet_commit (i : RecordId) : Quiet r (t, .agreed i) (t.commit i r, .committed i) := by
  have hindex := quiet_index (t := { t with traces := t.traces.insert i r }) (r := r) i Dimension.all []
  rw [← TraceTables.store_eq_foldl] at hindex
  have hrelease := quiet_release (t := t.store i r) (r := r) i Dimension.all (by decide)
  rw [← TraceTables.release_eq_foldl] at hrelease
  calc Quiet r (t, .agreed i) ({ t with traces := t.traces.insert i r }, .indexing i [] Dimension.all) :=
      .step .keep rfl
    Quiet r _ (t.store i r, .indexing i Dimension.all []) := hindex
    Quiet r _ (t.store i r, .releasing i Dimension.all) := .step .indexed rfl
    Quiet r _ ((t.store i r).release r, .releasing i []) := hrelease
    Quiet r _ (t.commit i r, .committed i) := .step .commit rfl

/-- An append that the hook has refused gives up all that it held, and prunes unless the hook crashed. -/
theorem quiet_unwind (i : RecordId) :
    Quiet r (t, .refused i) (t.unwind i r, .undoing (some i) [] Dimension.all) :=
  (Quiet.step .retire rfl).trans (quiet_unlock (some i) Dimension.all (by decide))

theorem quiet_abandon (i : RecordId) : Quiet r (t, .refused i) (t.abandon i r, .undoing (some i) [] []) :=
  (Quiet.step .retire rfl).trans (quiet_undo (some i) Dimension.all (by decide))

theorem exists_of_lock_error {left : List Dimension} {e : Error}
    (h : left.foldlM (fun t d => t.lockAt r d) t = .error e) : ∃ done d rest t₁, left = done ++ d :: rest ∧
      done.foldlM (fun t d => t.lockAt r d) t = .ok t₁ ∧ t₁.lockAt r d = .error e := by
  induction left generalizing t with
  | nil => cases h
  | cons d left ih =>
    rw [List.foldlM_cons] at h
    cases hd : t.lockAt r d with
    | error f =>
      rw [hd] at h
      cases h
      exact ⟨[], d, left, t, rfl, rfl, hd⟩
    | ok t₁ =>
      rw [hd] at h
      obtain ⟨done, c, rest, t₂, rfl, hdone, hc⟩ := ih h
      exact ⟨d :: done, c, rest, t₂, rfl, TraceTables.locks_cons_iff.mpr ⟨t₁, hd, hdone⟩, hc⟩

theorem quiet_start_ok {i : RecordId} (h : t.start r = .ok (i, t')) :
    Quiet r (t, .locking [] Dimension.all) (t', .asking i) := by
  obtain ⟨t₁, hlock, hreserve⟩ := TraceTables.start_eq_ok_iff.mp h
  exact (quiet_lock Dimension.all [] [] hlock).trans (Quiet.step (.reserve hreserve) rfl)

theorem quiet_start_error {e : Error} (hl : t.Listed) (h : t.start r = .error e) :
    Quiet r (t, .locking [] Dimension.all) (t.prune r, .undoing none [] []) := by
  rw [TraceTables.start, TraceTables.lock_eq_foldlM] at h
  cases hlock : Dimension.all.foldlM (fun t d => t.lockAt r d) t with
  | error f =>
    obtain ⟨done, d, rest, t₁, hall, hdone, hd⟩ := exists_of_lock_error hlock
    have hn : done.Nodup := by
      have hn : Dimension.all.Nodup := by decide
      rw [hall] at hn
      exact (List.nodup_append.mp hn).1
    have hundo := quiet_undo (t := t₁) (r := r) none done hn
    rw [TraceTables.prune_release_of_locks done hn hdone hl] at hundo
    have hlocks := quiet_lock done [] (d :: rest) hdone
    rw [← hall] at hlocks
    exact (hlocks.trans (Quiet.step (.timeout hd) rfl)).trans hundo
  | ok t₁ =>
    rw [hlock] at h
    cases hreserve : t₁.reserve? with
    | none =>
      have hundo := quiet_undo (t := t₁) (r := r) none Dimension.all (by decide)
      rw [TraceTables.prune_release_of_locks Dimension.all (by decide) hlock hl] at hundo
      exact ((quiet_lock Dimension.all [] [] hlock).trans (Quiet.step (.exhaust hreserve) rfl)).trans hundo
    | some p => simp [bind, Except.bind, hreserve, pure, Except.pure] at h

/-- Where an append stands that has run to its end. One whose hook crashed prunes nothing. -/
def Stage.ofResult {κ : Type} (o : Option RecordId) : Except (Failure κ) RecordId → Stage
  | .ok i => .committed i
  | .error (.error _) => .undoing o [] []
  | .error (.crash _) => .undoing o [] Dimension.all

/-- An append is quiet but for the answer of its hook, if it comes to ask it. -/
theorem quiet_appendWith {κ σ : Type} {hook : Hook κ σ} {s s' : σ} {x : Except (Failure κ) RecordId}
    (hl : t.Listed) (h : t.appendWith hook.beside r s = (x, s', t')) :
    (∃ i t₁, Quiet r (t, .locking [] Dimension.all) (t₁, .asking i) ∧
      ((∃ u, hook s = (.ok u, s') ∧ x = .ok i ∧ Quiet r (t₁, .agreed i) (t', .ofResult (some i) x)) ∨
        ∃ f, hook s = (.error f, s') ∧ x = .error f ∧
          Quiet r (t₁, .refused i) (t', .ofResult (some i) x))) ∨
    (s' = s ∧ (∃ e, x = .error (.error e)) ∧
      Quiet r (t, .locking [] Dimension.all) (t', .ofResult none x)) := by
  rcases TraceTables.appendWith_cases h with ⟨e, hstart, rfl, rfl, rfl⟩ | ⟨i, t₁, hstart, hend⟩
  · exact .inr ⟨rfl, ⟨e, rfl⟩, quiet_start_error hl hstart⟩
  · refine .inl ⟨i, t₁, quiet_start_ok hstart, ?_⟩
    rcases hend with ⟨hhook, rfl, rfl⟩ | ⟨e, hhook, rfl, rfl⟩ | ⟨k, hhook, rfl, rfl⟩
    · exact .inl ⟨(), hhook, rfl, quiet_commit i⟩
    · exact .inr ⟨_, hhook, rfl, quiet_abandon i⟩
    · exact .inr ⟨_, hhook, rfl, quiet_unwind i⟩

/-- An append whose hook leaves the tables alone is a run of the steps of an append. -/
theorem run_appendWith (as : List Append) {κ σ : Type} {hook : Hook κ σ} {s s' : σ}
    {x : Except (Failure κ) RecordId} (hl : t.Listed) (h : t.appendWith hook.beside r s = (x, s', t')) :
    ∃ o, Run ⟨t, as⟩ ⟨t', as ++ [⟨r, .ofResult o x⟩]⟩ := by
  have hbegin : Run ⟨t, as⟩ ⟨t, as ++ [.start r]⟩ := Relation.ReflTransGen.single (.start r)
  rcases quiet_appendWith hl h with ⟨i, t₁, hask, ⟨u, -, -, hend⟩ | ⟨f, -, -, hend⟩⟩ | ⟨-, -, hend⟩
  · exact ⟨_, ((hbegin.trans (hask.run as [])).trans (Run.advance as .agree [])).trans (hend.run as [])⟩
  · exact ⟨_, ((hbegin.trans (hask.run as [])).trans (Run.advance as .refuse [])).trans (hend.run as [])⟩
  · exact ⟨_, hbegin.trans (hend.run as [])⟩

end Interleaving
end FlightTrace
