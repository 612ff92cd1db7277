import FlightTrace.Proofs.DatabaseHistory
import FlightTrace.Proofs.TrackChanges

/-! What a database has received of a track. Observations that do not make a track leave it as it is. Otherwise
the thinned-out track is appended trace by trace, so that a failure leaves what came before it. -/
namespace FlightTrace

namespace Track

theorem mapM_eq_ok_iff {ε α β : Type} {f : α → Except ε β} {as : List α} {bs : List β} :
    as.mapM f = .ok bs ↔ List.Forall₂ (fun a b => f a = .ok b) as bs := by
  induction as generalizing bs with
  | nil =>
    rw [List.mapM_nil, List.forall₂_nil_left_iff]
    simp [pure, Except.pure, eq_comm]
  | cons a as ih =>
    rw [List.mapM_cons, List.forall₂_cons_left_iff]
    simp only [← ih]
    cases ha : f a with
    | error e => simp [bind, Except.bind]
    | ok b =>
      cases has : as.mapM f with
      | error e => simp [bind, Except.bind]
      | ok bs' =>
        simp only [bind, Except.bind, pure, Except.pure, Except.ok.injEq]
        constructor
        · rintro rfl
          exact ⟨b, bs', rfl, rfl, rfl⟩
        · rintro ⟨_, _, rfl, rfl, rfl⟩
          rfl

/-- Observations that make a track, and their traces: each can be a trace, and all are of one aircraft. -/
def OfOneAircraft (os : List Observation) (ts : List Trace) : Prop :=
  List.Forall₂ (fun o t => o.toTrace = .ok t) os ts ∧ ∀ t ∈ ts, ∀ u ∈ ts, u.address = t.address

theorem stranger?_eq_none_iff {ts : List Trace} :
    stranger? ts = none ↔ ∀ t ∈ ts, ∀ u ∈ ts, u.address = t.address := by
  cases ts with
  | nil => simp [stranger?]
  | cons t ts =>
    have hfirst : stranger? (t :: ts) = none ↔ ∀ u ∈ ts, u.address = t.address := by
      simp [stranger?]
    rw [hfirst]
    constructor
    · intro h
      have hall (u : Trace) (hu : u ∈ t :: ts) : u.address = t.address := by
        rcases List.mem_cons.mp hu with rfl | hu
        · rfl
        · exact h u hu
      exact fun u hu v hv => (hall v hv).trans (hall u hu).symm
    · exact fun h u hu => h t List.mem_cons_self u (List.mem_cons_of_mem t hu)

theorem validate_eq_ok_iff {os : List Observation} {ts : List Trace} :
    validate os = .ok ts ↔ ∃ rs, OfOneAircraft os rs ∧ ts = sortByTime rs := by
  simp only [OfOneAircraft, ← mapM_eq_ok_iff, ← stranger?_eq_none_iff]
  rw [validate]
  cases hall : os.mapM Observation.toTrace with
  | error f => simp [bind, Except.bind]
  | ok rs =>
    cases hs : stranger? rs with
    | some p => simp [bind, Except.bind, hs, throw, throwThe, MonadExceptOf.throw]
    | none => simp [bind, Except.bind, hs, pure, Except.pure, eq_comm]

theorem sortByTime_pairwise (ts : List Trace) : (sortByTime ts).Pairwise fun t u => t.time ≤ u.time :=
  List.pairwise_mergeSort (Ordered.leOn_trans Trace.time) (Ordered.leOn_total Trace.time) ts

theorem compact_pairwise {ts : List Trace} (h : ts.Pairwise fun t u => t.time ≤ u.time) :
    (compact ts).Pairwise fun t u => t.time ≤ u.time :=
  List.pairwise_map.mp ((List.pairwise_map.mpr h).sublist (times_compact ts))

end Track

namespace TraceTables

variable {t t' : TraceTables} {r : Trace}

theorem foldl_framed {α : Type} {f : TraceTables → α → TraceTables} (h : ∀ t a, Framed t (f t a)) (as : List α)
    (t : TraceTables) : Framed t (as.foldl f t) := by
  induction as generalizing t with
  | nil => exact .refl t
  | cons a as ih => exact (h t a).trans (ih (f t a))

theorem prune_framed : Framed t (t.prune r) := by
  rw [prune_eq_foldl]
  exact foldl_framed (fun _ _ => pruneAt_framed) Dimension.all t

/-- An append keeps its trace under the next number. One that fails keeps nothing, but may use up its number. -/
theorem kept_of_appendWith {κ σ : Type} {hook : Hook κ σ} {s s' : σ} {x : Except (Failure κ) RecordId}
    (h : t.appendWith hook.beside r s = (x, s', t')) :
    (∃ i, x = .ok i ∧ t'.traces = t.traces.insert i r ∧ i.val = t.watermark.reserved ∧
      t'.watermark.reserved = t.watermark.reserved + 1) ∨
    ∃ f, x = .error f ∧ t'.traces = t.traces ∧ t.watermark.reserved ≤ t'.watermark.reserved := by
  rcases appendWith_cases h with ⟨e, -, rfl, -, rfl⟩ | ⟨i, t₁, hstart, hend⟩
  · have hf := prune_framed (t := t) (r := r)
    exact .inr ⟨_, rfl, hf.traces, by rw [hf.watermark]⟩
  · obtain ⟨t₂, hlock, hreserve⟩ := start_eq_ok_iff.mp hstart
    obtain ⟨w, hw, rfl⟩ := reserve?_eq_some_iff.mp hreserve
    obtain ⟨hi, rfl⟩ := (Watermark.reserve?_eq_some_iff _).mp hw
    have hf := locks_framed _ hlock
    rw [hf.watermark] at hi
    rcases hend with ⟨-, rfl, rfl⟩ | ⟨e, -, rfl, rfl⟩ | ⟨k, -, rfl, rfl⟩
    · exact .inl ⟨i, rfl, congrArg (·.insert i r) hf.traces, hi, by rw [← hf.watermark]; rfl⟩
    · exact .inr ⟨_, rfl, hf.traces, by rw [← hf.watermark]; exact Nat.le_succ _⟩
    · exact .inr ⟨_, rfl, hf.traces, by rw [← hf.watermark]; exact Nat.le_succ _⟩

end TraceTables

namespace Database

variable {d d₁ d' : Database} {r : Trace} {rs rs' : List Trace} {ids ids' : List RecordId}

/-- What a database has received: traces in their order, each under a new number, and the numbers ascending. Beside
the table of traces and the log nothing has changed. Readers find the traces behind those that were there. -/
structure Received (d : Database) (rs : List Trace) (ids : List RecordId) (d' : Database) : Prop where
  numbered : ids.length = rs.length
  ascending : ids.Pairwise fun i j => i.val < j.val
  fresh : ∀ i ∈ ids, d.tables.traces.watermark.reserved ≤ i.val
  reserved : ∀ i ∈ ids, i.val < d'.tables.traces.watermark.reserved
  advances : d.tables.traces.watermark.reserved ≤ d'.tables.traces.watermark.reserved
  kept : d'.tables.traces.traces = (ids.zip rs).foldl (fun m p => m.insert p.1 p.2) d.tables.traces.traces
  rest : ∃ log traces, d' = { d with log, tables := { d.tables with traces } }
  contains : ∀ settings qs, d.tables.traces.Contains settings qs → d'.tables.traces.Contains settings (qs ++ rs)

theorem Received.nil (d : Database) : Received d [] [] d where
  numbered := rfl
  ascending := .nil
  fresh := fun _ hi => absurd hi List.not_mem_nil
  reserved := fun _ hi => absurd hi List.not_mem_nil
  advances := Nat.le_refl _
  kept := rfl
  rest := ⟨_, _, rfl⟩
  contains := fun _ qs h => by rwa [List.append_nil]

theorem Received.trans (h : Received d rs ids d₁) (h' : Received d₁ rs' ids' d') :
    Received d (rs ++ rs') (ids ++ ids') d' where
  numbered := by rw [List.length_append, List.length_append, h.numbered, h'.numbered]
  ascending := List.pairwise_append.mpr ⟨h.ascending, h'.ascending,
    fun i hi j hj => (h.reserved i hi).trans_le (h'.fresh j hj)⟩
  fresh := fun i hi => (List.mem_append.mp hi).elim (h.fresh i) fun hi => h.advances.trans (h'.fresh i hi)
  reserved := fun i hi =>
    (List.mem_append.mp hi).elim (fun hi => (h.reserved i hi).trans_le h'.advances) (h'.reserved i)
  advances := h.advances.trans h'.advances
  kept := by rw [List.zip_append h.numbered, List.foldl_append, h'.kept, h.kept]
  rest := by
    obtain ⟨log, traces, rfl⟩ := h.rest
    obtain ⟨log', traces', rfl⟩ := h'.rest
    exact ⟨log', traces', rfl⟩
  contains := fun settings qs hqs => by
    rw [← List.append_assoc]
    exact h'.contains settings (qs ++ rs) (h.contains settings qs hqs)

theorem append_cases {m : Medium} {now : Nat} {x : Except Error RecordId} (h : d.append m now r = (x, d')) :
    ((∃ e, x = .error e) ∧ d' = d) ∨
    ∃ y log traces, d.tables.traces.appendWith (record m now (.trace r)).beside r d.log = (y, log, traces) ∧
      x = y.mapError Failure.toError ∧ d' = { d with log, tables := { d.tables with traces } } := by
  rw [append] at h
  rcases Bool.eq_false_or_eq_true d.accepting with hopen | hclosed
  · rcases happend : d.tables.traces.appendWith (record m now (.trace r)).beside r d.log with ⟨y, log, traces⟩
    rw [change_open hopen, happend] at h
    cases h
    exact .inr ⟨y, log, traces, rfl, rfl, rfl⟩
  · rw [change_closed hclosed] at h
    cases h
    exact .inl ⟨⟨_, rfl⟩, rfl⟩

theorem append_received {m : Medium} {now : Nat} {x : Except Error RecordId} (h : d.append m now r = (x, d')) :
    (∃ i, x = .ok i ∧ Received d [r] [i] d') ∨ ∃ e, x = .error e ∧ Received d [] [] d' := by
  rcases append_cases h with ⟨⟨e, rfl⟩, rfl⟩ | ⟨y, log, traces, happend, rfl, rfl⟩
  · exact .inr ⟨e, rfl, .nil _⟩
  · rcases TraceTables.kept_of_appendWith happend with ⟨i, rfl, hkept, hi, hreserved⟩ | ⟨f, rfl, hkept, hreserved⟩
    · refine .inl ⟨i, rfl, rfl, List.pairwise_singleton _ _, ?_, ?_, ?_, hkept, ⟨log, traces, rfl⟩, ?_⟩
      · rintro j hj
        rw [List.mem_singleton.mp hj, hi]
      · rintro j hj
        rw [List.mem_singleton.mp hj, hi, hreserved]
        exact Nat.lt_succ_self _
      · rw [hreserved]
        exact Nat.le_succ _
      · exact fun settings qs hqs => hqs.appendWith happend
    · refine .inr ⟨_, rfl, rfl, .nil, ?_, ?_, hreserved, hkept, ⟨log, traces, rfl⟩, ?_⟩
      · exact fun _ hi => absurd hi List.not_mem_nil
      · exact fun _ hi => absurd hi List.not_mem_nil
      · exact fun settings qs hqs => hqs.appendWith happend

/-- Traces are appended up to the first whose append fails, and none after it. -/
theorem appendAll_cases (turn : Nat → Medium × Nat) (rs : List Trace) (d : Database) :
    ∃ done left ids d₁, rs = done ++ left ∧ d.appendAll turn done = (.ok ids, d₁) ∧
      ((left = [] ∧ d.appendAll turn rs = (.ok ids, d₁)) ∨
        ∃ r rest e d', left = r :: rest ∧
          d₁.append (turn done.length).1 (turn done.length).2 r = (.error e, d') ∧
          d.appendAll turn rs = (.error e, d')) := by
  induction rs generalizing turn d with
  | nil => exact ⟨[], [], [], d, rfl, rfl, .inl ⟨rfl, rfl⟩⟩
  | cons r rs ih =>
    rcases happend : d.append (turn 0).1 (turn 0).2 r with ⟨e | i, d₁⟩
    · refine ⟨[], r :: rs, [], d, rfl, rfl, .inr ⟨r, rs, e, d₁, rfl, happend, ?_⟩⟩
      rw [appendAll, happend]
    · obtain ⟨done, left, ids, d₂, hsplit, hdone, hend⟩ := ih (fun n => turn (n + 1)) d₁
      refine ⟨r :: done, left, i :: ids, d₂, congrArg (List.cons r) hsplit, ?_, ?_⟩
      · rw [appendAll, happend]
        simp only [hdone]
      · rcases hend with ⟨hleft, hall⟩ | ⟨u, rest, e, d', hleft, hfail, hall⟩
        · refine .inl ⟨hleft, ?_⟩
          rw [appendAll, happend]
          simp only [hall]
        · refine .inr ⟨u, rest, e, d', hleft, hfail, ?_⟩
          rw [appendAll, happend]
          simp only [hall]

theorem appendAll_cons {turn : Nat → Medium × Nat} (h : d.appendAll turn (r :: rs) = (.ok ids, d')) :
    ∃ i is d₁, d.append (turn 0).1 (turn 0).2 r = (.ok i, d₁) ∧
      d₁.appendAll (fun n => turn (n + 1)) rs = (.ok is, d') ∧ ids = i :: is := by
  rw [appendAll] at h
  rcases happend : d.append (turn 0).1 (turn 0).2 r with ⟨e | i, d₁⟩
  · rw [happend] at h
    cases h
  · rcases hrest : d₁.appendAll (fun n => turn (n + 1)) rs with ⟨e | is, d₂⟩
    · simp only [happend, hrest] at h
      cases h
    · simp only [happend, hrest] at h
      cases h
      exact ⟨i, is, d₁, rfl, hrest, rfl⟩

theorem appendAll_received {turn : Nat → Medium × Nat} (h : d.appendAll turn rs = (.ok ids, d')) :
    Received d rs ids d' := by
  induction rs generalizing turn d ids with
  | nil =>
    cases h
    exact .nil _
  | cons r rs ih =>
    obtain ⟨i, is, d₁, happend, hrest, rfl⟩ := appendAll_cons h
    rcases append_received happend with ⟨j, hj, hreceived⟩ | ⟨e, he, -⟩
    · cases hj
      exact hreceived.trans (ih hrest)
    · cases he

/-- A database that is ready for changes takes traces that fit while there are numbers and nothing fails. -/
theorem Ready.appendAll_sound (turn : Nat → Medium × Nat) (h : d.Ready)
    (hfits : ∀ r ∈ rs, Log.Frame.Fits (.trace r))
    (hleft : d.tables.traces.watermark.reserved + rs.length ≤ UInt64.size) (hturn : ∀ n, (turn n).1 = .sound) :
    ∃ ids d', d.appendAll turn rs = (.ok ids, d') ∧ d'.Ready := by
  induction rs generalizing turn d with
  | nil => exact ⟨[], d, rfl, h⟩
  | cons r rs ih =>
    rw [List.length_cons] at hleft
    obtain ⟨i, d₁, happend, h₁, hreserved⟩ :=
      h.append_sound (turn 0).2 (hfits r List.mem_cons_self) (by omega)
    obtain ⟨ids, d', hrest, h'⟩ := ih (fun n => turn (n + 1)) h₁
      (fun r hr => hfits r (List.mem_cons_of_mem _ hr)) (by omega) fun n => hturn (n + 1)
    rw [← hturn 0] at happend
    exact ⟨i :: ids, d', by rw [appendAll, happend]; simp only [hrest], h'⟩

theorem Ready.ingest_sound (turn : Nat → Medium × Nat) {os : List Observation} {ts : List Trace} (h : d.Ready)
    (hvalid : Track.validate os = .ok ts) (hfits : ∀ r ∈ Track.compact ts, Log.Frame.Fits (.trace r))
    (hleft : d.tables.traces.watermark.reserved + (Track.compact ts).length ≤ UInt64.size)
    (hturn : ∀ n, (turn n).1 = .sound) : ∃ ids d', d.ingestInTurns turn os = (.ok ids, d') ∧ d'.Ready := by
  rw [ingestInTurns, hvalid]
  exact h.appendAll_sound turn hfits hleft hturn

theorem Logs.append_ok (f : Log.Faults) {now : Nat} {es : List Log.Entry} {i : RecordId} (h : d.Logs es)
    (ha : d.append f.medium now r = (.ok i, d')) : d'.Logs (es ++ [.trace r]) := by
  have hout := append_outcome (P := fun _ => True) f now h r
  rw [ha] at hout
  cases hout with
  | made hlog _ => exact hlog
  | unmade hx _ _ => exact absurd rfl hx

theorem Logs.append_error (f : Log.Faults) {now : Nat} {es : List Log.Entry} {e : Error} (h : d.Logs es)
    (ha : d.append f.medium now r = (.error e, d')) : d'.Logs es := by
  have hout := append_outcome (P := fun _ => True) f now h r
  rw [ha] at hout
  cases hout with
  | unmade _ hlog _ => exact hlog

/-- Whether the file, in every turn, keeps what lands in it and can be cut. -/
def Steady (turn : Nat → Medium × Nat) : Prop := ∀ n, ∃ f : Log.Faults, (turn n).1 = f.medium

theorem Logs.appendAll {turn : Nat → Medium × Nat} {es : List Log.Entry} (hturn : Steady turn) (h : d.Logs es)
    (ha : d.appendAll turn rs = (.ok ids, d')) : d'.Logs (es ++ rs.map .trace) := by
  induction rs generalizing turn d ids es with
  | nil =>
    cases ha
    rwa [List.map_nil, List.append_nil]
  | cons r rs ih =>
    obtain ⟨i, is, d₁, happend, hrest, -⟩ := appendAll_cons ha
    obtain ⟨f, hf⟩ := hturn 0
    rw [hf] at happend
    have hlogs := ih (fun n => hturn (n + 1)) (h.append_ok f happend) hrest
    rwa [List.append_assoc] at hlogs

/-- Observations that do not make a track leave the database as it is. Otherwise it receives the thinned-out track
in the order of time: all of it, or what stands before the first trace whose append fails, and then the error is the
one of this append, after which there is no other. A log on a steady file holds just what was received beside what it
held. -/
theorem ingestInTurns_receives_prefix (turn : Nat → Medium × Nat) (os : List Observation) (d : Database) :
    (∃ f, Track.validate os = .error f ∧ (¬∃ ts, Track.OfOneAircraft os ts) ∧
      d.ingestInTurns turn os = (.error (.invalidRecord f), d)) ∨
    ∃ ts done left ids d', (∃ rs, Track.OfOneAircraft os rs ∧ ts = Track.sortByTime rs) ∧
      Track.validate os = .ok ts ∧ Track.compact ts = done ++ left ∧
      (done.Pairwise fun t u => t.time ≤ u.time) ∧ Received d done ids d' ∧
      (Steady turn → ∀ es, d.Logs es → d'.Logs (es ++ done.map .trace)) ∧
      ((left = [] ∧ d.ingestInTurns turn os = (.ok ids, d')) ∨
        ∃ r rest e d₁, left = r :: rest ∧ d.appendAll turn done = (.ok ids, d₁) ∧
          d₁.append (turn done.length).1 (turn done.length).2 r = (.error e, d') ∧
          d.ingestInTurns turn os = (.error e, d')) := by
  cases hvalid : Track.validate os with
  | error f =>
    refine .inl ⟨f, rfl, ?_, by rw [ingestInTurns, hvalid]⟩
    rintro ⟨rs, hrs⟩
    rw [Track.validate_eq_ok_iff.mpr ⟨rs, hrs, rfl⟩] at hvalid
    cases hvalid
  | ok ts =>
    obtain ⟨rs, hrs, hts⟩ := Track.validate_eq_ok_iff.mp hvalid
    have hingest : d.ingestInTurns turn os = d.appendAll turn (Track.compact ts) := by
      rw [ingestInTurns, hvalid]
    obtain ⟨done, left, ids, d₁, hsplit, hdone, hend⟩ := appendAll_cases turn (Track.compact ts) d
    have hordered : done.Pairwise fun t u => t.time ≤ u.time := by
      have hall := Track.compact_pairwise (hts ▸ Track.sortByTime_pairwise rs)
      rw [hsplit] at hall
      exact (List.pairwise_append.mp hall).1
    rw [hingest]
    rcases hend with ⟨hleft, hall⟩ | ⟨r, rest, e, d', hleft, hfail, hall⟩
    · exact .inr ⟨ts, done, left, ids, d₁, ⟨rs, hrs, hts⟩, rfl, hsplit, hordered, appendAll_received hdone,
        fun hturn es hes => hes.appendAll hturn hdone, .inl ⟨hleft, hall⟩⟩
    · have hreceived : Received d done ids d' := by
        rcases append_received hfail with ⟨i, hi, -⟩ | ⟨-, -, hnothing⟩
        · cases hi
        · have htrans := (appendAll_received hdone).trans hnothing
          rwa [List.append_nil, List.append_nil] at htrans
      refine .inr ⟨ts, done, left, ids, d', ⟨rs, hrs, hts⟩, rfl, hsplit, hordered, hreceived, ?_,
        .inr ⟨r, rest, e, d₁, hleft, hdone, hfail, hall⟩⟩
      intro hturn es hes
      obtain ⟨f, hf⟩ := hturn done.length
      rw [hf] at hfail
      exact (hes.appendAll hturn hdone).append_error f hfail

end Database
end FlightTrace
