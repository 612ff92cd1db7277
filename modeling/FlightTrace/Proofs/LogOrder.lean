import FlightTrace.Proofs.Reopening
import FlightTrace.Proofs.Visibility

/-! Overlapping appends of a database that has a log. Numbers are given out at one moment and frames are written
at another, so the log need not be in the order of the numbers. But an append holds the bucket of its time through
both moments. So traces of one time are in the log in the order of their numbers, which is the order in which
readers see them. -/
namespace FlightTrace

namespace Interleaving

def Stage.logged? : Stage → Option RecordId
  | agreed i | indexing i _ _ | releasing i _ | committed i => some i
  | _ => none

theorem Stage.id?_of_logged? {g : Stage} {i : RecordId} (h : g.logged? = some i) : g.id? = some i := by
  cases g <;> first | exact h | cases h

theorem Stage.Ended.logged?_iff {g : Stage} {i : RecordId} (h : g.Ended) :
    g.logged? = some i ↔ g = .committed i := by
  rcases h with ⟨j, rfl⟩ | ⟨o, left, rfl⟩
  · exact ⟨fun hi => congrArg _ (Option.some.inj hi), fun hi => congrArg some (Stage.committed.inj hi)⟩
  · simp [logged?]

section

variable {r : Trace} {t t' : TraceTables} {g g' : Stage} {i : RecordId}

theorem Advance.logged?_eq (h : Advance r t g t' g') (hg : g.asks = false) : g'.logged? = g.logged? := by
  cases h <;> first | rfl | cases hg

theorem Advance.reserved_of_asking (h : Advance r t g t' (.asking i)) : i.val = t.watermark.reserved := by
  cases h with
  | reserve hr =>
    obtain ⟨w, hw, -⟩ := TraceTables.reserve?_eq_some_iff.mp hr
    exact ((Watermark.reserve?_eq_some_iff _).mp hw).1

end
end Interleaving

namespace Database

open Interleaving

def withTraces (d : Database) (t : TraceTables) : Database := { d with tables := { d.tables with traces := t } }

/-- A database with all appends to it that have begun, and the traces that were written to its log, with their
numbers. -/
structure Ongoing where
  database : Database
  appends : List Append
  written : List (RecordId × Trace)

namespace Ongoing

def state (σ : Ongoing) : State := ⟨σ.database.tables.traces, σ.appends⟩

/-- An append begins, or takes a step; or the log is synced, or the database closed. The hook that an append asks
writes its trace to the log, fails to, or is told that the database is closed. It may have been closed since the
append or its hook looked. -/
inductive Step : Ongoing → Ongoing → Prop where
  | start {d as ws} (r : Trace) : Step ⟨d, as, ws⟩ ⟨d, as ++ [.start r], ws⟩
  | advance {d t as bs ws r g g'} (h : Advance r d.tables.traces g t g') (hg : g.asks = false) :
    Step ⟨d, as ++ ⟨r, g⟩ :: bs, ws⟩ ⟨d.withTraces t, as ++ ⟨r, g'⟩ :: bs, ws⟩
  | write {d log as bs ws r i} (f : Log.Faults) (now : Nat)
    (h : record f.medium now (.trace r) d.log = (.ok (), log)) :
    Step ⟨d, as ++ ⟨r, .asking i⟩ :: bs, ws⟩ ⟨{ d with log }, as ++ ⟨r, .agreed i⟩ :: bs, ws ++ [(i, r)]⟩
  | fail {d log as bs ws r i e} (f : Log.Faults) (now : Nat)
    (h : record f.medium now (.trace r) d.log = (.error e, log)) :
    Step ⟨d, as ++ ⟨r, .asking i⟩ :: bs, ws⟩ ⟨{ d with log }, as ++ ⟨r, .refused i⟩ :: bs, ws⟩
  | turnAway {d as bs ws r i} (h : d.accepting = false) :
    Step ⟨d, as ++ ⟨r, .asking i⟩ :: bs, ws⟩ ⟨d, as ++ ⟨r, .refused i⟩ :: bs, ws⟩
  | flush {d as ws} (f : Log.Faults) (now : Nat) : Step ⟨d, as, ws⟩ ⟨(d.flush f.medium now).2, as, ws⟩
  | syncIfOverdue {d as ws} (f : Log.Faults) (now : Nat) :
    Step ⟨d, as, ws⟩ ⟨d.syncIfOverdue f.medium now, as, ws⟩
  | close {d as ws} : Step ⟨d, as, ws⟩ ⟨{ d with accepting := false }, as, ws⟩

abbrev Run : Ongoing → Ongoing → Prop := Relation.ReflTransGen Step

variable {σ σ' : Ongoing}

/-- Without the log, a step is one of overlapping appends, or nothing. -/
theorem Step.run_state (h : Step σ σ') : Interleaving.Run σ.state σ'.state := by
  cases h with
  | start r => exact .single (.start r)
  | advance ha => exact .single (.advance ha)
  | write => exact .single (.advance .agree)
  | fail => exact .single (.advance .refuse)
  | turnAway => exact .single (.advance .refuse)
  | flush f now =>
    simp only [state, tables_flush]
    exact .refl
  | syncIfOverdue f now =>
    simp only [state, tables_syncIfOverdue]
    exact .refl
  | close => exact .refl

section

variable {d : Database} {r : Trace} (as bs : List Append) (ws : List (RecordId × Trace))

theorem Run.quiet {t : TraceTables} {g g' : Stage} (h : Quiet r (d.tables.traces, g) (t, g')) :
    Run ⟨d, as ++ ⟨r, g⟩ :: bs, ws⟩ ⟨d.withTraces t, as ++ ⟨r, g'⟩ :: bs, ws⟩ :=
  Relation.ReflTransGen.lift (p := Step)
    (fun p : TraceTables × Stage => (⟨d.withTraces p.1, as ++ ⟨r, p.2⟩ :: bs, ws⟩ : Ongoing))
    (fun _ _ hs => .advance hs.1 hs.2) _ _ h

theorem Run.begin {t : TraceTables} {i : RecordId} (h : d.tables.traces.start r = .ok (i, t)) :
    Run ⟨d, as, ws⟩ ⟨d.withTraces t, as ++ [⟨r, .asking i⟩], ws⟩ :=
  .head (.start r) (Run.quiet as [] ws (quiet_start_ok h))

theorem Run.finish {log : Option Log} {i : RecordId} (f : Log.Faults) (now : Nat)
    (h : record f.medium now (.trace r) d.log = (.ok (), log)) : Run ⟨d, as ++ ⟨r, .asking i⟩ :: bs, ws⟩
      ⟨{ d with log }.withTraces (d.tables.traces.commit i r), as ++ ⟨r, .committed i⟩ :: bs, ws ++ [(i, r)]⟩ :=
  .head (.write f now h) (Run.quiet as bs _ (d := { d with log }) (quiet_commit i))

def writes (r : Trace) : Except (Failure Empty) RecordId → List (RecordId × Trace)
  | .ok i => [(i, r)]
  | .error _ => []

/-- An append of a database that is not closed is a run of the steps of an append. -/
theorem run_append (hl : d.tables.traces.Listed) (hopen : d.accepting = true) (f : Log.Faults) (now : Nat)
    (r : Trace) : ∃ o x, (d.append f.medium now r).1 = x.mapError Failure.toError ∧
      Run ⟨d, as, ws⟩
        ⟨(d.append f.medium now r).2, as ++ [⟨r, .ofResult o x⟩], ws ++ writes r x⟩ := by
  rw [append, change_open hopen]
  cases ha : d.tables.traces.appendWith (record f.medium now (.trace r)).beside r d.log with
  | mk x p =>
    obtain ⟨log, t⟩ := p
    rcases quiet_appendWith hl ha with
      ⟨i, t₁, hask, ⟨u, hr, rfl, hend⟩ | ⟨e, hr, rfl, hend⟩⟩ | ⟨rfl, ⟨e, rfl⟩, hend⟩
    · refine ⟨some i, .ok i, rfl, .head (.start r) ((Run.quiet as [] ws hask).trans ?_)⟩
      exact .head (.write f now hr) (Run.quiet as [] _ (d := { d.withTraces t₁ with log }) hend)
    · refine ⟨some i, .error e, rfl, .head (.start r) ((Run.quiet as [] ws hask).trans ?_)⟩
      rw [writes, List.append_nil]
      exact .head (.fail f now hr) (Run.quiet as [] _ (d := { d.withTraces t₁ with log }) hend)
    · refine ⟨none, .error (.error e), rfl, .head (.start r) ?_⟩
      rw [writes, List.append_nil]
      exact Run.quiet as [] ws hend

end

/-- What holds in every state. The traces that were written are those in the log, and belong to the appends to
which the hook has agreed. Those of one time are in the order of their numbers, and an append that asks has a
number above those of its time. -/
structure Sound (σ : Ongoing) : Prop where
  state : σ.state.Sound
  logged : ∃ es, σ.database.Logs es ∧ Log.traces es = σ.written.map (·.2) ∧ ∀ e ∈ es, Tables.Redoable e
  mem_iff : ∀ p, p ∈ σ.written ↔ ∃ a ∈ σ.appends, a.stage.logged? = some p.1 ∧ a.record = p.2
  distinct : σ.written.Pairwise fun p q => p.1 ≠ q.1
  ordered : σ.written.Pairwise fun p q => p.2.time = q.2.time → p.1.val < q.1.val
  latest : ∀ a ∈ σ.appends, ∀ i, a.stage = .asking i →
    ∀ p ∈ σ.written, p.2.time = a.record.time → p.1.val < i.val

namespace Sound

theorem numbered (h : σ.Sound) {p : RecordId × Trace} (hp : p ∈ σ.written) :
    ∃ a ∈ σ.appends, a.stage.id? = some p.1 := by
  obtain ⟨a, ha, hi, -⟩ := (h.mem_iff p).mp hp
  exact ⟨a, ha, Stage.id?_of_logged? hi⟩

/-- A step that writes nothing keeps the invariant. An append that comes to ask has a number above all others. -/
theorem of_unwritten (h : σ.Sound) (hstep : Step σ σ') (hwritten : σ'.written = σ.written)
    (hlog : ∀ es, σ.database.Logs es → σ'.database.Logs es)
    (hlogged : ∀ p : RecordId × Trace, (∃ a ∈ σ'.appends, a.stage.logged? = some p.1 ∧ a.record = p.2) ↔
      ∃ a ∈ σ.appends, a.stage.logged? = some p.1 ∧ a.record = p.2)
    (hasking : ∀ a ∈ σ'.appends, ∀ i, a.stage = .asking i →
      a ∈ σ.appends ∨ i.val = σ.database.tables.traces.watermark.reserved) : σ'.Sound where
  state := hstep.run_state.sound h.state
  logged := by
    obtain ⟨es, hes, htraces, hredoable⟩ := h.logged
    exact ⟨es, hlog es hes, hwritten ▸ htraces, hredoable⟩
  mem_iff p := by rw [hwritten, h.mem_iff, hlogged]
  distinct := hwritten ▸ h.distinct
  ordered := hwritten ▸ h.ordered
  latest a ha i hi p hp ht := by
    rw [hwritten] at hp
    rcases hasking a ha i hi with hold | hnew
    · exact h.latest a hold i hi p hp ht
    · obtain ⟨b, hb, hid⟩ := h.numbered hp
      rw [hnew]
      exact (h.state.numbered _).mpr ⟨b, hb, p.1, hid, rfl⟩

section

variable {d d' : Database} {as bs : List Append} {ws : List (RecordId × Trace)} {r : Trace} {g g' : Stage}
  {i : RecordId}

theorem of_unwritten_middle (h : Sound ⟨d, as ++ ⟨r, g⟩ :: bs, ws⟩)
    (hstep : Step ⟨d, as ++ ⟨r, g⟩ :: bs, ws⟩ ⟨d', as ++ ⟨r, g'⟩ :: bs, ws⟩)
    (hlog : ∀ es, d.Logs es → d'.Logs es) (hlogged : g'.logged? = g.logged?)
    (hasking : ∀ i, g' = .asking i → i.val = d.tables.traces.watermark.reserved) :
    Sound ⟨d', as ++ ⟨r, g'⟩ :: bs, ws⟩ := by
  refine h.of_unwritten hstep rfl hlog (fun p => ?_) fun a ha i hi => ?_
  · rw [exists_mem_middle, exists_mem_middle, hlogged]
  · rcases mem_middle.mp ha with rfl | ha
    · exact .inr (hasking i hi)
    · exact .inl (mem_middle.mpr (.inr ha))

/-- No other append of its time asks, since both would hold the bucket of their time. -/
theorem time_ne_of_asking (h : Sound ⟨d, as ++ ⟨r, .asking i⟩ :: bs, ws⟩) {a : Append} {j : RecordId}
    (ha : a ∈ as ++ bs) (hj : a.stage = .asking j) : r.time ≠ a.record.time := by
  intro ht
  obtain ⟨x, g⟩ := a
  obtain rfl : g = .asking j := hj
  let s : Slot := .time (r.time.second / d.tables.traces.time.width)
  have hmine : Append.Holds d.tables.traces.time.width ⟨r, .asking i⟩ s := ⟨.time, Dimension.mem_all _, rfl⟩
  have htheirs : Append.Holds d.tables.traces.time.width ⟨x, .asking j⟩ s :=
    ⟨.time, Dimension.mem_all _, by rw [Slot.of?, ← ht]⟩
  exact h.state.others_exclusive hmine _ ha htheirs

/-- An append that writes has a number above those of its time that were written before. -/
theorem write (h : Sound ⟨d, as ++ ⟨r, .asking i⟩ :: bs, ws⟩) {log : Option Log} (f : Log.Faults) (now : Nat)
    (hr : record f.medium now (.trace r) d.log = (.ok (), log)) :
    Sound ⟨{ d with log }, as ++ ⟨r, .agreed i⟩ :: bs, ws ++ [(i, r)]⟩ := by
  have hmine : ⟨r, .asking i⟩ ∈ as ++ ⟨r, .asking i⟩ :: bs := mem_middle.mpr (.inl rfl)
  have hfresh : ∀ p ∈ ws, p.1 ≠ i := by
    rintro p hp rfl
    obtain ⟨a, ha, hi, -⟩ := (h.mem_iff p).mp hp
    rw [h.state.eq_of_id? ha hmine (Stage.id?_of_logged? hi) rfl] at hi
    cases hi
  have hlast {R : RecordId × Trace → RecordId × Trace → Prop} (hws : ws.Pairwise R)
      (hnew : ∀ p ∈ ws, R p (i, r)) : (ws ++ [(i, r)]).Pairwise R := by
    refine List.pairwise_append.mpr ⟨hws, List.pairwise_singleton R _, fun p hp q hq => ?_⟩
    rw [List.mem_singleton.mp hq]
    exact hnew p hp
  constructor
  case state =>
    have hstep : Step ⟨d, as ++ ⟨r, .asking i⟩ :: bs, ws⟩ _ := .write f now hr
    exact hstep.run_state.sound h.state
  case logged =>
    obtain ⟨es, hes, htraces, hredoable⟩ := h.logged
    have hlog : ({ d with log } : Database).Logs (es ++ [.trace r]) := Logs.record_ok (d := d) f now hes hr
    refine ⟨es ++ [.trace r], hlog, ?_, fun e he => ?_⟩
    · rw [Log.traces_append, htraces, List.map_append]
      rfl
    · rcases List.mem_append.mp he with he | he
      · exact hredoable e he
      · rw [List.mem_singleton.mp he]
        exact Tables.redoable_of_not_document fun _ _ => by simp
  case mem_iff =>
    intro p
    have hp := h.mem_iff p
    rw [exists_mem_middle] at hp ⊢
    rw [List.mem_append, List.mem_singleton, hp, or_comm]
    simp [Stage.logged?, Prod.ext_iff, eq_comm]
  case distinct => exact hlast h.distinct hfresh
  case ordered => exact hlast h.ordered fun p hp ht => h.latest _ hmine i rfl p hp ht
  case latest =>
    intro a ha j hj p hp ht
    rcases mem_middle.mp ha with rfl | ha
    · cases hj
    · rcases List.mem_append.mp hp with hp | hp
      · exact h.latest a (mem_middle.mpr (.inr ha)) j hj p hp ht
      · rw [List.mem_singleton.mp hp] at ht
        exact absurd ht (h.time_ne_of_asking ha hj)

end
end Sound

theorem Step.sound (h : Step σ σ') (hs : σ.Sound) : σ'.Sound := by
  have hsame {d d' : Database} {as : List Append} {ws : List (RecordId × Trace)}
      (hstep : Step ⟨d, as, ws⟩ ⟨d', as, ws⟩) (hs : Sound ⟨d, as, ws⟩) (hlog : ∀ es, d.Logs es → d'.Logs es) :
      Sound ⟨d', as, ws⟩ :=
    hs.of_unwritten hstep rfl hlog (fun _ => Iff.rfl) fun a ha _ _ => .inl ha
  have hstep := h
  cases h with
  | start r =>
    refine hs.of_unwritten hstep rfl (fun _ hes => hes) (fun p => ?_) fun a ha i hi => ?_
    · simp [Append.start, Stage.logged?, or_and_right, exists_or]
    · rcases List.mem_append.mp ha with ha | ha
      · exact .inl ha
      · rw [List.mem_singleton.mp ha] at hi
        cases hi
  | advance ha hg =>
    refine hs.of_unwritten_middle hstep (fun _ hes => hes) (ha.logged?_eq hg) ?_
    rintro i rfl
    exact ha.reserved_of_asking
  | write f now hr => exact hs.write f now hr
  | fail f now hr => exact hs.of_unwritten_middle hstep (fun _ hes => hes.record_error f now hr) rfl (by simp)
  | turnAway => exact hs.of_unwritten_middle hstep (fun _ hes => hes) rfl (by simp)
  | flush f now => exact hsame hstep hs fun _ hes => hes.flush f now
  | syncIfOverdue f now => exact hsame hstep hs fun _ hes => hes.syncIfOverdue f now
  | close => exact hsame hstep hs fun _ hes => hes

theorem Run.sound (h : Run σ σ') (hs : σ.Sound) : σ'.Sound := by
  induction h with
  | refl => exact hs
  | tail _ hstep ih => exact hstep.sound ih

namespace Sound

variable (h : σ.Sound)
include h

theorem length_le : σ.written.length ≤ UInt64.size :=
  (h.state.length_le_reserved h.distinct fun _ hp => h.numbered hp).trans h.state.reserved_le

theorem mem_of_committed {i : RecordId} {r : Trace} (ha : ⟨r, .committed i⟩ ∈ σ.appends) : (i, r) ∈ σ.written :=
  (h.mem_iff (i, r)).mpr ⟨_, ha, rfl, rfl⟩

theorem exists_before {i j : RecordId} {r s : Trace} (hi : (i, r) ∈ σ.written) (hj : (j, s) ∈ σ.written)
    (ht : r.time = s.time) (hlt : i.val < j.val) :
    ∃ before between after, σ.written = before ++ (i, r) :: (between ++ (j, s) :: after) := by
  obtain ⟨before, rest, hws⟩ := List.append_of_mem hi
  have hordered := h.ordered
  rw [hws] at hj hordered
  obtain ⟨-, -, hbefore⟩ := List.pairwise_append.mp hordered
  rcases List.mem_append.mp hj with hj | hj
  · exact absurd (hbefore _ hj _ List.mem_cons_self ht.symm) (Nat.lt_asymm hlt)
  · rcases List.mem_cons.mp hj with hj | hj
    · cases hj
      exact absurd hlt (Nat.lt_irrefl _)
    · obtain ⟨between, after, rfl⟩ := List.append_of_mem hj
      exact ⟨before, between, after, hws⟩

theorem arranged (hended : ∀ a ∈ σ.appends, a.stage.Ended) : σ.state.Arranged σ.written where
  sound := h.state
  ended := hended
  mem_iff p := by
    obtain ⟨i, r⟩ := p
    rw [h.mem_iff, State.mem_committed]
    constructor
    · rintro ⟨⟨x, g⟩, ha, hi, rfl⟩
      obtain rfl : g = .committed i := (hended _ ha).logged?_iff.mp hi
      exact ha
    · exact fun ha => ⟨_, ha, rfl, rfl⟩
  ordered := h.ordered

end Sound

/-- A database that was just opened on whole frames, perhaps with a torn end behind them. The appends that
recovery has made are those of the traces in the log. -/
inductive Opened : Ongoing → Prop where
  | intro {folder config settings m durability opened es tail d as} (hfits : ∀ e ∈ es, Log.Frame.Fits e)
    (hread : Log.Replay.ofBytes (Log.Replay.frames es ++ tail) =
      .ok ⟨es, (Log.Replay.frames es).length, tail.length⟩)
    (hopen : (recover folder config settings m
      (.ofFile durability (Log.Replay.frames es ++ tail) opened)).1 = .ok d)
    (hsettled : State.Settled ⟨d.tables.traces, as⟩)
    (hlogged : State.appended ⟨d.tables.traces, as⟩ = Log.traces es) :
    Opened ⟨d, as, State.committed ⟨d.tables.traces, as⟩⟩

section

variable {folder : String} {config : Config} {settings : Settings} {m : Medium} {durability : Durability}
  {opened : Nat} {d : Database}

theorem exists_opened {es : List Log.Entry} {tail : List UInt8} (hfits : ∀ e ∈ es, Log.Frame.Fits e)
    (hread : Log.Replay.ofBytes (Log.Replay.frames es ++ tail) =
      .ok ⟨es, (Log.Replay.frames es).length, tail.length⟩)
    (hopen : (recover folder config settings m
      (.ofFile durability (Log.Replay.frames es ++ tail) opened)).1 = .ok d) :
    ∃ as, Opened ⟨d, as, State.committed ⟨d.tables.traces, as⟩⟩ := by
  obtain ⟨as, hsettled, -, hlogged, -⟩ := (recover_stores durability opened m hfits hread hopen).traces
  exact ⟨as, .intro hfits hread hopen hsettled hlogged⟩

theorem opened_of_empty (hopen : (recover folder config settings m (.ofFile durability [] opened)).1 = .ok d) :
    Opened ⟨d, [], []⟩ := by
  have hfits : ∀ e ∈ ([] : List Log.Entry), Log.Frame.Fits e := fun _ he => absurd he List.not_mem_nil
  have hread : Log.Replay.ofBytes (Log.Replay.frames [] ++ []) =
      .ok ⟨[], (Log.Replay.frames []).length, ([] : List UInt8).length⟩ := Log.Replay.ofBytes_frames hfits
  obtain ⟨-, htables⟩ := recover_torn durability opened m hread hopen
  have htraces : d.tables.traces = .ofSettings settings := congrArg Tables.traces (Except.ok.inj htables).symm
  have hsettled : State.Settled ⟨d.tables.traces, []⟩ := htraces ▸ .start settings
  exact .intro hfits hread hopen hsettled rfl

end

theorem Opened.sound (h : σ.Opened) : σ.Sound := by
  cases h with
  | @intro folder config settings m durability opened es tail d as hfits hread hopen hsettled hlogged =>
    have hlog := (recover_stores durability opened m hfits hread hopen).logged
    obtain ⟨-, htables⟩ := recover_torn durability opened m hread hopen
    refine ⟨hsettled.sound, ⟨es, hlog, hlogged.symm, Tables.redoable_of_ofEntries htables⟩, ?_, ?_, ?_, ?_⟩
    · rintro ⟨i, r⟩
      rw [State.mem_committed]
      constructor
      · exact fun ha => ⟨_, ha, rfl, rfl⟩
      · rintro ⟨⟨x, g⟩, ha, hi, rfl⟩
        obtain rfl : g = .committed i := (hsettled.ended _ ha).logged?_iff.mp hi
        exact ha
    · exact hsettled.sound.committed_pairwise
    · exact hsettled.arranged.ordered
    · intro a ha i hi
      rcases hsettled.ended a ha with ⟨j, hg⟩ | ⟨o, left, hg⟩ <;> (rw [hg] at hi; cases hi)

/-- However the appends to an opened database interleave, and whatever fails in the file of its log, the log has
two committed traces of one time in the order of their numbers. Once all appends have ended, each database that is
opened on the log finds the same traces as the live one, in the same order. -/
theorem appends_replay_in_order {σ₀ : Ongoing} (h₀ : σ₀.Opened) (h : Run σ₀ σ) :
    ∃ l es, σ.database.log = some l ∧
      Log.Replay.ofBytes (l.file ++ l.pending) = .ok ⟨es, (l.file ++ l.pending).length, 0⟩ ∧
      Log.traces es = σ.written.map (·.2) ∧
      (∀ i r j s, ⟨r, .committed i⟩ ∈ σ.appends → ⟨s, .committed j⟩ ∈ σ.appends → r.time = s.time →
        i.val < j.val → ∃ before between after,
          σ.written = before ++ (i, r) :: (between ++ (j, s) :: after)) ∧
      ((∀ a ∈ σ.appends, a.stage.Ended) → ∀ folder config settings m durability opened, ∃ d,
        (recover folder config settings m (.ofFile durability (l.file ++ l.pending) opened)).1 = .ok d ∧
        ∀ path range,
          σ.database.tables.traces.query path range (fun _ => false) =
            .ok (Trace.matching (Log.traces es) range path) ∧
          d.tables.traces.query path range (fun _ => false) =
            .ok (Trace.matching (Log.traces es) range path)) := by
  have hs := h.sound h₀.sound
  obtain ⟨es, ⟨l, hlog, hl⟩, htraces, hredoable⟩ := hs.logged
  refine ⟨l, es, hlog, ?_, htraces, ?_, ?_⟩
  · rw [hl.stream]
    exact Log.Replay.ofBytes_frames hl.fits
  · exact fun i r j s hi hj ht hlt => hs.exists_before (hs.mem_of_committed hi) (hs.mem_of_committed hj) ht hlt
  · intro hended folder config settings m durability opened
    have hleft : (Log.traces es).length ≤ UInt64.size := by
      rw [htraces, List.length_map]
      exact hs.length_le
    rw [hl.stream]
    rcases recover_cases hl.fits hleft folder config settings m durability opened with
      ⟨-, d, hok, hrecovered⟩ | ⟨key, text, hmem, hnone, -⟩
    · refine ⟨d, hok, fun path range => ⟨?_, ?_⟩⟩
      · rw [htraces]
        exact (hs.arranged hended).query_eq range path
      · obtain ⟨as, hsettled, -, happended, -⟩ := hrecovered.traces
        rw [← happended]
        exact hsettled.query_eq range path
    · exact absurd hnone (hredoable _ hmem key text rfl)

/-! The second of three appends comes to its end while the first asks. The third has the time of the first. -/

namespace Overtaking

open Interleaving.Overtaking Nesting

def again : Trace := { time := lower.time, address := ⟨3, by decide⟩ }

def two : RecordId := ⟨2, by decide⟩

theorem matching_overtaken :
    Trace.matching [upper, lower, again] .all .time = [lower, again, upper] := by
  have hall : ([upper, lower, again].filter fun r =>
      AccessPath.time.matchesTrace r && TimeRange.all.contains r.time) = [upper, lower, again] := rfl
  have hupper : Ordered.leOn Trace.time upper lower = false ∧ Ordered.leOn Trace.time upper again = false :=
    ⟨rfl, rfl⟩
  have hlower : Ordered.leOn Trace.time lower again = true := rfl
  rw [Trace.matching, hall]
  simp [List.mergeSort, List.MergeSort.Internal.splitInTwo, List.splitAt, List.splitAt.go, hupper, hlower]

theorem exists_record {d : Database} {l : Log} {r : Trace} {es : List Log.Entry} (hlog : d.log = some l)
    (hl : l.Holds es) (hstrict : l.durability = .strict) (hr : Log.Frame.Fits (.trace r)) :
    ∃ l', record clear.medium 0 (.trace r) d.log = (.ok (), some l') ∧
      l'.Holds (es ++ [.trace r]) ∧ l'.durability = .strict := by
  obtain ⟨l', happend, hkept⟩ := Log.append_sound 0 hr hl.usable
  have hrecord : record clear.medium 0 (.trace r) d.log = (.ok (), some l') := by
    rw [hlog, record, medium_clear, happend]
  exact ⟨l', hrecord, (Log.append_ok_holds clear 0 hl happend).1, hkept.trans hstrict⟩

theorem exists_run : ∃ d, Run ⟨fresh, [], []⟩
    ⟨d, [⟨lower, .committed .min⟩, ⟨upper, .committed one⟩, ⟨again, .committed two⟩],
      [(one, upper), (.min, lower), (two, again)]⟩ := by
  obtain ⟨t₂, t₃, hupper, hagain⟩ : ∃ t₂ t₃, begun.start upper = .ok (one, t₂) ∧
      ((t₂.commit one upper).commit .min lower).start again = .ok (two, t₃) := ⟨_, _, rfl, rfl⟩
  let d₁ : Database := fresh.withTraces begun
  have hrun₁ : Run ⟨fresh, [], []⟩ ⟨d₁, [⟨lower, .asking .min⟩], []⟩ := Run.begin [] [] rfl
  let d₂ : Database := d₁.withTraces t₂
  have hrun₂ : Run ⟨d₁, [⟨lower, .asking .min⟩], []⟩ ⟨d₂, [⟨lower, .asking .min⟩, ⟨upper, .asking one⟩], []⟩ :=
    Run.begin [⟨lower, .asking .min⟩] [] hupper
  obtain ⟨l₁, hr₁, hl₁, hstrict₁⟩ := exists_record (d := d₂) (r := upper) rfl
    (Log.History.start_holds .strict 0) rfl (by decide +kernel)
  have hrun₃ := Run.finish [⟨lower, .asking .min⟩] [] [] clear 0 hr₁ (i := one)
  let d₃ : Database := { d₂ with log := some l₁ }.withTraces (t₂.commit one upper)
  obtain ⟨l₂, hr₂, hl₂, hstrict₂⟩ := exists_record (d := d₃) (r := lower) rfl hl₁ hstrict₁ (by decide +kernel)
  have hrun₄ := Run.finish [] [⟨upper, .committed one⟩] [(one, upper)] clear 0 hr₂ (i := .min)
  let d₄ : Database := { d₃ with log := some l₂ }.withTraces ((t₂.commit one upper).commit .min lower)
  have hrun₅ : Run ⟨d₄, [⟨lower, .committed .min⟩, ⟨upper, .committed one⟩], [(one, upper), (.min, lower)]⟩ _ :=
    Run.begin _ _ hagain
  let d₅ : Database := d₄.withTraces t₃
  obtain ⟨l₃, hr₃, -, -⟩ := exists_record (d := d₅) (r := again) rfl hl₂ hstrict₂ (by decide +kernel)
  have hrun₆ := Run.finish [⟨lower, .committed .min⟩, ⟨upper, .committed one⟩] []
    [(one, upper), (.min, lower)] clear 0 hr₃ (i := two)
  exact ⟨_, ((((hrun₁.trans hrun₂).trans hrun₃).trans hrun₄).trans hrun₅).trans hrun₆⟩

end Overtaking

open Interleaving.Overtaking Nesting Overtaking

/-- The log has the second trace first, and is opened with the order of the live table. -/
theorem overtaken_append_replays_in_order : ∃ d σ l es d',
    (recover "" .standard {} .sound (.ofFile .strict [] 0)).1 = .ok d ∧ Run ⟨d, [], []⟩ σ ∧
    σ.appends = [⟨lower, .committed .min⟩, ⟨upper, .committed one⟩, ⟨again, .committed two⟩] ∧
    lower.time = again.time ∧ σ.written = [(one, upper), (.min, lower), (two, again)] ∧
    σ.database.log = some l ∧
    Log.Replay.ofBytes (l.file ++ l.pending) = .ok ⟨es, (l.file ++ l.pending).length, 0⟩ ∧
    Log.traces es = [upper, lower, again] ∧
    (recover "" .standard {} .sound (.ofFile .strict (l.file ++ l.pending) 0)).1 = .ok d' ∧
    σ.database.tables.traces.query .time .all (fun _ => false) = .ok [lower, again, upper] ∧
    d'.tables.traces.query .time .all (fun _ => false) = .ok [lower, again, upper] := by
  obtain ⟨d, hrun⟩ := exists_run
  obtain ⟨l, es, hlog, hread, htraces, -, hended⟩ :=
    appends_replay_in_order (opened_of_empty recover_fresh) hrun
  obtain ⟨d', hok, hquery⟩ := hended (by
    intro a ha
    simp only [List.mem_cons, List.not_mem_nil, or_false] at ha
    rcases ha with rfl | rfl | rfl <;> exact .inl ⟨_, rfl⟩) "" .standard {} .sound .strict 0
  have hmatching : Trace.matching (Log.traces es) .all .time = [lower, again, upper] := by
    rw [htraces]
    exact matching_overtaken
  obtain ⟨hlive, hreplayed⟩ := hquery .time .all
  rw [hmatching] at hlive hreplayed
  exact ⟨_, _, l, es, d', recover_fresh, hrun, rfl, rfl, rfl, hlog, hread, htraces, hok, hlive, hreplayed⟩

end Ongoing
end Database
end FlightTrace
