import FlightTrace.Proofs.CutLog
import FlightTrace.Proofs.LogOnto

/-! What a crash can take from a log. What survives a crash for certain is the file as the medium last synced it, which
it does when a sync is asked of it and it does not fail. The entries that the log counts as unsynced are those it
acknowledged last, and the frames of all others lie in the file as it was then. -/
namespace FlightTrace

def Durability.slack : Durability → Nat
  | .strict => 0
  | .batched _ batch => batch - 1

namespace Log

variable {l l' : Log} {es : List Entry} {m : Medium} {now : Nat}

/-- The file that a medium syncs when it is asked to, once the waiting frames are written. -/
def kept? (m : Medium) (l : Log) : Option (List UInt8) :=
  match l.writePending m with
  | (.ok (), l) => if m.syncs then some l.file else none
  | (.error _, _) => none

/-- The file that the medium syncs in a call. It is asked for a sync by an append that is due, by the background sync
if it is overdue, and whenever a caller asks for one. -/
def Call.kept? (m : Medium) (now : Nat) (l : Log) : Call → Option (List UInt8)
  | .append e => if (Frame.encode e).isOk && !l.poisoned && (l.queue e).due now then (l.queue e).kept? m else none
  | .fsync => l.kept? m
  | .syncIfOverdue => if l.overdue now then l.kept? m else none
  | .flush | .replay => none

/-- A log, the entries whose append has succeeded, and the file as the medium last synced it. -/
structure SyncedHistory where
  history : History
  synced : List UInt8

namespace SyncedHistory

def on (durability : Durability) (base : List UInt8) (now : Nat) : SyncedHistory := ⟨.on durability base now, base⟩

def step (h : SyncedHistory) (s : Step) : SyncedHistory :=
  ⟨h.history.step s, (s.call.kept? s.faults.medium s.now h.history.log).getD h.synced⟩

def run (h : SyncedHistory) (steps : List Step) : SyncedHistory := steps.foldl step h

end SyncedHistory

/-- A log reports that it has synced just if the medium has. -/
theorem kept?_eq_some_iff {bs : List UInt8} (now : Nat) :
    l.kept? m = some bs ↔ ∃ l', l.sync m now = (.ok (), l') ∧ l'.file = bs := by
  cases hw : l.writePending m with
  | mk x l₁ =>
    cases x with
    | error g => simp [kept?, sync, hw]
    | ok u => cases hs : m.syncs <;> simp [kept?, sync, hw, hs]

theorem kept?_of_sync_ok (h : l.sync m now = (.ok (), l')) : l.kept? m = some l'.file :=
  (kept?_eq_some_iff now).mpr ⟨l', h, rfl⟩

theorem unsynced_of_append_ok {e : Entry} {n : Nat} (h : l.append m now e = (.ok n, l')) :
    l'.unsynced = if (l.queue e).due now then 0 else l.unsynced + 1 := by
  rcases append_cases h with ⟨⟨g, hr⟩, -⟩ | ⟨-, -, -, hs⟩ | ⟨-, -, g, l₁, hr, -⟩
  · cases hr
  · exact unsynced_of_settle_ok hs
  · cases hr

theorem unsynced_of_append_error {e : Entry} {g : Error} (h : l.append m now e = (.error g, l')) :
    l'.unsynced = l.unsynced := by
  rcases append_cases h with ⟨-, rfl⟩ | ⟨-, -, hr, -⟩ | ⟨-, -, g, l₁, -, hs, rfl⟩
  · rfl
  · cases hr
  · have hqueue : l₁.unsynced = l.unsynced + 1 := unsynced_of_settle_error hs
    rw [unsynced_rollback, hqueue, Nat.add_sub_cancel]

theorem unsynced_of_fsync_error {g : Error} (h : l.fsync m now = (.error g, l')) : l'.unsynced = l.unsynced := by
  rw [fsync] at h
  split at h
  · cases h
  · rename_i hs
    cases h
    exact unsynced_of_sync_error hs

theorem slack_of_not_due (h : l.due now = false) : l.unsynced ≤ l.durability.slack := by
  rw [due] at h
  cases hd : l.durability with
  | strict =>
    rw [hd] at h
    cases h
  | batched interval batch =>
    rw [hd] at h
    have hbatch := not_or.mp (of_decide_eq_false h)
    rw [Durability.slack]
    omega

theorem le_written_rollback {start : Nat} (h : l.written ≤ start) (hw : l.written ≤ l'.written) :
    l.written ≤ (l'.rollback m start).written := by
  rw [rollback]
  split
  · exact h
  · exact hw

theorem Moved.le_written (hm : Moved l l') : l.written ≤ l'.written := by
  rcases hm.frames with ⟨-, -, hw⟩ | ⟨-, -, hw⟩ <;> omega

theorem le_written_append (f : Faults) (now : Nat) (h : l.Holds es) (e : Entry) :
    l.written ≤ (l.append f.medium now e).2.written := by
  cases ha : l.append f.medium now e with
  | mk r l' =>
    rcases append_cases ha with ⟨-, rfl⟩ | ⟨hfits, -, -, hs⟩ | ⟨hfits, -, g, l₁, -, hs, rfl⟩
    · exact Nat.le_refl _
    · have hm := settle_moved f now (queue_holds h hfits).written
      rw [hs] at hm
      exact hm.le_written
    · have hm := settle_moved f now (queue_holds h hfits).written
      rw [hs] at hm
      exact le_written_rollback (Nat.le_add_right _ _) hm.le_written

namespace History

variable {h : History} {c : Call}

/-- A call in which the medium syncs ends with that. -/
theorem exists_sync {bs : List UInt8} (hk : c.kept? m now h.log = some bs) :
    ∃ l : Log, l.sync m now = (.ok (), (h.call m now c).log) ∧ (h.call m now c).log.file = bs := by
  cases c with
  | append e =>
    rw [Call.kept?] at hk
    split at hk
    · rename_i hasks
      simp only [Bool.and_eq_true, Bool.not_eq_true'] at hasks
      obtain ⟨⟨hencode, husable⟩, hdue⟩ := hasks
      obtain ⟨l, hsync, hfile⟩ := (kept?_eq_some_iff now).mp hk
      obtain ⟨frame, hframe⟩ : ∃ frame, Frame.encode e = .ok frame := by
        cases he : Frame.encode e with
        | ok frame => exact ⟨frame, rfl⟩
        | error f =>
          rw [he] at hencode
          cases hencode
      have happend : h.log.append m now e = (.ok h.log.size, l) := by
        rw [append_eq (Frame.encode_eq_ok_iff.mp hframe).1, husable, settle_eq, hdue, hsync]
        rfl
      rw [call, happend]
      exact ⟨_, hsync, hfile⟩
    · cases hk
  | flush => cases hk
  | fsync =>
    obtain ⟨l, hsync, hfile⟩ := (kept?_eq_some_iff now).mp hk
    rw [call, fsync_log, hsync]
    exact ⟨_, hsync, hfile⟩
  | syncIfOverdue =>
    rw [Call.kept?] at hk
    split at hk
    · rename_i hover
      obtain ⟨l, hsync, hfile⟩ := (kept?_eq_some_iff now).mp hk
      rw [call, syncIfOverdue_eq, if_pos hover, fsync_eq_ok_iff.mpr hsync]
      exact ⟨_, hsync, hfile⟩
    · cases hk
  | replay => cases hk

/-- A call in which the medium does not sync counts the entry it adds, and leaves no more entries unsynced than it
found or may leave. -/
theorem unsynced_of_not_kept (hk : c.kept? m now h.log = none) :
    ∃ added, (h.call m now c).acknowledged = h.acknowledged ++ added ∧
      (h.call m now c).log.unsynced = h.log.unsynced + added.length ∧
      (added = [] ∨ (h.call m now c).log.unsynced ≤ h.log.durability.slack) := by
  cases c with
  | append e =>
    cases ha : h.log.append m now e with
    | mk r l =>
      cases r with
      | error g =>
        have hcount := unsynced_of_append_error ha
        exact ⟨[], by simp [call, ha], by simp [call, ha, hcount], .inl rfl⟩
      | ok n =>
        have hdue : (h.log.queue e).due now = false := by
          rcases append_cases ha with ⟨⟨g, hr⟩, -⟩ | ⟨hfits, husable, -, hsettle⟩ | ⟨-, -, g, l₁, hr, -⟩
          · cases hr
          · refine Bool.eq_false_iff.mpr fun hdue => ?_
            rw [settle_eq, if_pos hdue] at hsettle
            rw [Call.kept?, Frame.encode_eq_ok_iff.mpr ⟨hfits, rfl⟩, husable, hdue] at hk
            exact absurd ((kept?_of_sync_ok hsettle).symm.trans hk) (Option.some_ne_none _)
          · cases hr
        have hcount := unsynced_of_append_ok ha
        rw [hdue, if_neg Bool.false_ne_true] at hcount
        refine ⟨[e], by simp [call, ha], by simp [call, ha, hcount], .inr ?_⟩
        simp only [call, ha, hcount]
        exact slack_of_not_due hdue
  | flush => exact ⟨[], by simp [call], by simp [call, flush_log, unsynced_writePending], .inl rfl⟩
  | fsync =>
    cases hf : h.log.fsync m now with
    | mk r l =>
      cases r with
      | error g =>
        have hcount := unsynced_of_fsync_error hf
        exact ⟨[], by simp [call], by simp [call, hf, hcount], .inl rfl⟩
      | ok u =>
        have hkept := kept?_of_sync_ok (fsync_eq_ok_iff.mp hf)
        exact absurd (hkept.symm.trans hk) (Option.some_ne_none _)
  | syncIfOverdue =>
    cases hf : h.log.syncIfOverdue m now with
    | mk r l =>
      rcases syncIfOverdue_cases hf with ⟨-, hover, hl⟩ | ⟨-, -, rfl⟩ | ⟨g, -, hl⟩
      · rw [Call.kept?, if_pos hover, kept?_of_sync_ok (fsync_eq_ok_iff.mp hl)] at hk
        cases hk
      · exact ⟨[], by simp [call], by simp [call, hf], .inl rfl⟩
      · have hcount := unsynced_of_fsync_error hl
        exact ⟨[], by simp [call], by simp [call, hf, hcount], .inl rfl⟩
  | replay => exact ⟨[], by simp [call], by simp [call, replay_log, flush_log, unsynced_writePending], .inl rfl⟩

theorem le_written_call (f : Faults) (now : Nat) (c : Call) (hh : h.log.Holds h.acknowledged) :
    h.log.written ≤ (h.call f.medium now c).log.written := by
  rcases call_cases f.medium now h c with ⟨e, rfl⟩ | ⟨l, hl, rfl | rfl | rfl⟩
  · have happend := le_written_append f now hh e
    rw [call]
    split <;> (rename_i ha; rwa [ha] at happend)
  · exact hl ▸ Nat.le_refl _
  · exact hl ▸ (writePending_moved f hh.written).1.le_written
  · exact hl ▸ (sync_moved f now hh.written).le_written

end History

namespace SyncedHistory

/-- A log whose unsynced entries are the last of those it acknowledged. -/
structure Secured (h : SyncedHistory) : Prop where
  holds : h.history.log.Holds h.history.acknowledged
  parted : ∃ safe risked, h.history.acknowledged = safe ++ risked ∧ h.synced = Replay.frames safe ∧
    risked.length = h.history.log.unsynced
  inside : h.synced.length ≤ h.history.log.written
  bounded : h.history.log.unsynced ≤ h.history.log.durability.slack

variable {h : SyncedHistory}

theorem start_secured (durability : Durability) (now : Nat) : (on durability [] now).Secured :=
  ⟨History.start_holds durability now, ⟨[], [], rfl, rfl, rfl⟩, Nat.le_refl 0, Nat.zero_le _⟩

theorem step_secured (hh : h.Secured) (s : Step) : (h.step s).Secured := by
  have hholds := History.step_holds hh.holds s
  have hwritten := History.le_written_call s.faults s.now s.call hh.holds
  have hdurability := History.durability_call s.faults.medium s.now h.history s.call
  rw [← History.step_eq] at hwritten hdurability
  rw [step]
  cases hk : s.call.kept? s.faults.medium s.now h.history.log with
  | some bs =>
    obtain ⟨l, hsync, hbs⟩ := History.exists_sync hk
    rw [← History.step_eq] at hsync hbs
    subst hbs
    have hpending := pending_of_sync_ok hsync
    have hcount := unsynced_of_sync_ok hsync
    have hfile := hholds.stream
    rw [hpending, List.append_nil] at hfile
    exact ⟨hholds, ⟨_, [], (List.append_nil _).symm, hfile, hcount.symm⟩, hholds.written.ge,
      hcount ▸ Nat.zero_le _⟩
  | none =>
    obtain ⟨added, hadded, hcount, hbound⟩ := History.unsynced_of_not_kept hk
    rw [← History.step_eq] at hadded hcount hbound
    obtain ⟨safe, risked, hes, hsafe, hrisked⟩ := hh.parted
    refine ⟨hholds, ⟨safe, risked ++ added, ?_, hsafe, ?_⟩, hh.inside.trans hwritten, ?_⟩
    · rw [hadded, hes, List.append_assoc]
    · rw [List.length_append, hrisked, hcount]
    · simp only [hdurability]
      rcases hbound with rfl | hbound
      · exact hcount ▸ hh.bounded
      · exact hbound

theorem run_secured (hh : h.Secured) (steps : List Step) : (h.run steps).Secured := by
  induction steps generalizing h with
  | nil => exact hh
  | cons s steps ih => exact ih (step_secured hh s)

theorem durability_run (h : SyncedHistory) (steps : List Step) :
    (h.run steps).history.log.durability = h.history.log.durability := by
  induction steps generalizing h with
  | nil => rfl
  | cons s steps ih =>
    have hstep : (h.history.step s).log.durability = h.history.log.durability := by
      rw [History.step_eq, History.durability_call]
    exact (ih (h.step s)).trans hstep

namespace Secured

theorem exists_safe (hh : h.Secured) : ∃ safe, safe <+: h.history.acknowledged ∧ h.synced = Replay.frames safe ∧
    safe.length + h.history.log.unsynced = h.history.acknowledged.length := by
  obtain ⟨safe, risked, hes, hsafe, hrisked⟩ := hh.parted
  exact ⟨safe, ⟨risked, hes.symm⟩, hsafe, by rw [hes, List.length_append, hrisked]⟩

theorem unsynced_le (hh : h.Secured) : h.history.log.unsynced ≤ h.history.acknowledged.length := by
  obtain ⟨safe, -, -, hlength⟩ := hh.exists_safe
  omega

theorem exists_written (hh : h.Secured) : ∃ as, as <+: h.history.acknowledged ∧
    h.history.log.file = Replay.frames as ∧ h.synced.length ≤ (Replay.frames as).length := by
  obtain ⟨as, bs, hes, has, -⟩ := hh.holds.parted
  have hinside := hh.inside
  rw [hh.holds.written, has] at hinside
  exact ⟨as, ⟨bs, hes.symm⟩, has, hinside⟩

theorem synced_isPrefix (hh : h.Secured) : h.synced <+: h.history.log.file := by
  obtain ⟨safe, hsafe, hsynced, -⟩ := hh.exists_safe
  obtain ⟨as, has, hfile, hle⟩ := hh.exists_written
  rw [hsynced] at hle ⊢
  rw [hfile]
  exact List.prefix_of_prefix_length_le (Replay.frames_isPrefix hsafe) (Replay.frames_isPrefix has) hle

theorem in_synced_iff (hh : h.Secured) {i : Nat} (hi : i < h.history.acknowledged.length) :
    Replay.frames (h.history.acknowledged.take (i + 1)) <+: h.synced ↔
      i < h.history.acknowledged.length - h.history.log.unsynced := by
  obtain ⟨safe, hsafe, hsynced, hlength⟩ := hh.exists_safe
  rw [hsynced, List.prefix_iff_eq_take.mp (Replay.frames_isPrefix hsafe), Replay.take_prefix_within_iff hi,
    Replay.within_length_frames hsafe]
  omega

/-- A cut behind what is synced loses no entries but those that are counted as unsynced. -/
theorem exists_lost (hh : h.Secured) {n : Nat} (hn : h.synced.length ≤ n) :
    ∃ lost, h.history.acknowledged = Replay.within n h.history.acknowledged ++ lost ∧
      lost.length ≤ h.history.log.unsynced := by
  obtain ⟨safe, hsafe, hsynced, hlength⟩ := hh.exists_safe
  have hkept : safe <+: Replay.within n h.history.acknowledged :=
    (Replay.prefix_within_iff hsafe).mpr (hsynced ▸ hn)
  obtain ⟨lost, hlost⟩ := Replay.within_isPrefix n h.history.acknowledged
  have hle := hkept.length_le
  have hsum := congrArg List.length hlost
  rw [List.length_append] at hsum
  exact ⟨lost, hlost.symm, by omega⟩

end Secured

theorem kept?_onto (base : List UInt8) (l : Log) :
    (l.onto base).kept? m = (l.kept? (m.behind base.length)).map (base ++ ·) := by
  rcases (writePending_onto base m l).cases with ⟨_, _, l₁, hp, hq⟩ | ⟨_, _, l₁, hp, hq⟩
  · rw [Log.kept?, Log.kept?, hp, hq]
    cases hs : m.syncs <;> simp [Medium.behind, hs, Log.onto]
  · rw [Log.kept?, Log.kept?, hp, hq]
    rfl

theorem call_kept?_onto (base : List UInt8) (l : Log) (c : Call) :
    c.kept? m now (l.onto base) = (c.kept? (m.behind base.length) now l).map (base ++ ·) := by
  cases c with
  | append e =>
    have hqueue : (l.onto base).queue e = (l.queue e).onto base := rfl
    rw [Call.kept?, Call.kept?, hqueue, onto_poisoned, onto_due, kept?_onto]
    split <;> rfl
  | flush => rfl
  | fsync => exact kept?_onto base l
  | syncIfOverdue =>
    rw [Call.kept?, Call.kept?, onto_overdue, kept?_onto]
    split <;> rfl
  | replay => rfl

def onto (base : List UInt8) (h : SyncedHistory) : SyncedHistory := ⟨h.history.onto base, base ++ h.synced⟩

theorem on_eq_onto (durability : Durability) (base : List UInt8) (now : Nat) :
    on durability base now = (on durability [] now).onto base := by
  rw [on, on, onto, History.on_eq_onto, List.append_nil]
  rfl

theorem step_onto (base : List UInt8) (h : SyncedHistory) (s : Step) :
    (h.onto base).step s = (h.step (s.behind base.length)).onto base := by
  have hkept : s.call.kept? s.faults.medium s.now (h.history.log.onto base) =
      ((s.behind base.length).call.kept? (s.behind base.length).faults.medium (s.behind base.length).now
        h.history.log).map (base ++ ·) := call_kept?_onto base h.history.log s.call
  simp only [step, onto, History.step_onto]
  rw [show (h.history.onto base).log = h.history.log.onto base from rfl, hkept]
  cases (s.behind base.length).call.kept? (s.behind base.length).faults.medium (s.behind base.length).now
    h.history.log <;> rfl

theorem run_onto (base : List UInt8) (h : SyncedHistory) (steps : List Step) :
    (h.onto base).run steps = (h.run (steps.map (·.behind base.length))).onto base := by
  induction steps generalizing h with
  | nil => rfl
  | cons s steps ih =>
    change ((h.onto base).step s).run steps = _
    rw [step_onto, ih]
    rfl

/-- A log is opened on any file, and any calls are made on it while writes and syncs may fail. The acknowledged
entries whose frames are not in the file as it was last synced are then those that are counted as unsynced, the
last that were acknowledged: none in a log that syncs each entry, and fewer than a batch in one that is batched. So
a crash that leaves the file at least up to there takes no more than these, and what can still be read is what the
file held at first and then all entries but the lost ones. -/
theorem run_risks_only_unsynced (durability : Durability) (base : List UInt8) (opened : Nat) (steps : List Step) :
    let h := (on durability base opened).run steps
    let es := h.history.acknowledged
    let l := h.history.log
    h.synced <+: l.file ∧ l.unsynced ≤ es.length ∧
    (∀ i < es.length, (base ++ Replay.frames (es.take (i + 1)) <+: h.synced ↔ i < es.length - l.unsynced)) ∧
    (durability = .strict → l.unsynced = 0) ∧
    (∀ interval batch, durability = .batched interval batch → l.unsynced < max batch 1) ∧
    ∀ k, h.synced.length ≤ k →
      ∃ kept lost, es = kept ++ lost ∧ lost.length ≤ l.unsynced ∧
        (∀ i < es.length, (base ++ Replay.frames (es.take (i + 1)) <+: l.file.take k ↔ i < kept.length)) ∧
        ∀ old, Replay.Framed base old → ∀ durability' reopened m r,
          ((ofFile durability' (l.file.take k) reopened).replay m).1 = .ok r → r.entries = old ++ kept := by
  intro h
  obtain ⟨h₀, hh, hsecured, hmode⟩ : ∃ h₀ : SyncedHistory, h = h₀.onto base ∧ h₀.Secured ∧
      h₀.history.log.durability = durability :=
    ⟨(on durability [] opened).run (steps.map (·.behind base.length)), by rw [← run_onto, ← on_eq_onto],
      run_secured (start_secured durability opened) _, durability_run _ _⟩
  rw [hh]
  intro es l
  have hbehind (i : Nat) (bs : List UInt8) : base ++ Replay.frames (es.take (i + 1)) <+: base ++ bs ↔
      Replay.frames (es.take (i + 1)) <+: bs := List.prefix_append_right_inj base
  refine ⟨(List.prefix_append_right_inj base).mpr hsecured.synced_isPrefix, hsecured.unsynced_le,
    fun i hi => (hbehind i _).trans (hsecured.in_synced_iff hi), ?_, ?_, fun k hk => ?_⟩
  · rintro rfl
    have hslack := hsecured.bounded
    rw [hmode] at hslack
    exact Nat.le_zero.mp hslack
  · rintro interval batch rfl
    have hslack := hsecured.bounded
    rw [hmode, Durability.slack] at hslack
    change h₀.history.log.unsynced < max batch 1
    omega
  · have hbase : base.length ≤ k := (by simp [onto] : base.length ≤ (h₀.onto base).synced.length).trans hk
    obtain ⟨as, has, hfile, hinside⟩ := hsecured.exists_written
    have hcut : l.file.take k =
        base ++ (Replay.frames es).take (min (k - base.length) (Replay.frames as).length) :=
      (congrArg (fun file => (base ++ file).take k) hfile).trans (Replay.take_onto_frames base has hbase)
    have hkept : h₀.synced.length ≤ min (k - base.length) (Replay.frames as).length := by
      rw [onto, List.length_append] at hk
      omega
    obtain ⟨lost, hlost, hle⟩ := hsecured.exists_lost hkept
    rw [hcut]
    refine ⟨_, lost, hlost, hle, fun i hi => (hbehind i _).trans (Replay.take_prefix_within_iff hi), ?_⟩
    intro old hold durability' reopened m r hr
    exact (Replay.eq_of_ofBytes_cut hold hsecured.holds.fits (replay_ofFile_eq_ok_iff.mp hr)).1

open Replay (tagOn)

/-- Of two entries the second is written to the file, but the medium fails to sync it. It is the one at risk. -/
theorem unsynced_entry_is_risked :
    let steps : List Step := [⟨.append (tagOn 1 ""), 0, .clear⟩, ⟨.fsync, 1, .clear⟩, ⟨.append (tagOn 2 ""), 2, .clear⟩,
      ⟨.fsync, 3, { Faults.clear with syncs := false }⟩]
    let h := (on (.batched 1000 10) [] 0).run steps
    h.history.acknowledged = [tagOn 1 "", tagOn 2 ""] ∧ h.history.log.unsynced = 1 ∧
    h.history.log.file = Replay.frames [tagOn 1 "", tagOn 2 ""] ∧ h.synced = Replay.frames [tagOn 1 ""] ∧
    ∀ k, h.synced.length ≤ k → ∃ kept lost, [tagOn 1 "", tagOn 2 ""] = kept ++ lost ∧ lost.length ≤ 1 := by
  intro steps h
  have hrun : h.history.acknowledged = [tagOn 1 "", tagOn 2 ""] ∧ h.history.log.unsynced = 1 ∧
      h.history.log.file = Replay.frames [tagOn 1 "", tagOn 2 ""] ∧ h.synced = Replay.frames [tagOn 1 ""] := by
    decide +kernel
  obtain ⟨hacknowledged, hunsynced, hfile, hsynced⟩ := hrun
  obtain ⟨-, -, -, -, -, hlost⟩ := run_risks_only_unsynced (.batched 1000 10) [] 0 steps
  refine ⟨hacknowledged, hunsynced, hfile, hsynced, fun k hk => ?_⟩
  obtain ⟨kept, lost, hes, hle, -⟩ := hlost k hk
  exact ⟨kept, lost, hacknowledged ▸ hes, hunsynced ▸ hle⟩

end SyncedHistory

end Log
end FlightTrace
