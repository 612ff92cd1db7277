import FlightTrace.Proofs.LogHistory

/-! What each call on a log does, whatever its file does. The conditions under which an append or the background
sync reaches for the file are brought out as conditions on the log, so that the calls can be compared. -/
namespace FlightTrace
namespace Log

variable {l l' : Log} {m : Medium} {now : Nat}

/-- Whether an append that has queued its frame syncs the log. -/
def due (now : Nat) (l : Log) : Bool :=
  match l.durability with
  | .strict => true
  | .batched interval batch => interval ≤ now - l.lastSync ∨ batch ≤ l.unsynced

theorem settle_eq : l.settle m now =
    if l.due now then l.sync m now
    else if pendingLimit ≤ l.pending.length then l.writePending m
    else (.ok (), l) := by
  rw [settle, due]
  cases l.durability with
  | strict => rfl
  | batched interval batch => simp only [decide_eq_true_eq]

/-- Whether entries have waited for longer than a batched log may leave them unsynced. -/
def overdue (now : Nat) (l : Log) : Bool :=
  match l.durability with
  | .strict => false
  | .batched interval _ => ¬(l.unsynced = 0 ∨ now - l.lastSync < interval)

theorem syncIfOverdue_eq : l.syncIfOverdue m now =
    if l.overdue now then
      match l.fsync m now with
      | (.ok (), l) => (.ok true, l)
      | (.error e, l) => (.error e, l)
    else (.ok false, l) := by
  rw [syncIfOverdue, overdue]
  cases l.durability with
  | strict => rfl
  | batched interval batch =>
    by_cases hquiet : l.unsynced = 0 ∨ now - l.lastSync < interval
    · simp only [hquiet, not_true, decide_false, if_true, Bool.false_eq_true, if_false]
    · exact (if_neg hquiet).trans (if_pos (decide_eq_true hquiet)).symm

/-- The log once so many of the waiting bytes have landed in its file. -/
def land (m : Medium) (n : Nat) (l : Log) : Log :=
  { l with file := if m.keeps then l.file ++ l.pending.take n else l.file }

theorem writePending_eq : l.writePending m =
    if l.pending = [] then (.ok (), l)
    else
      match m.landed? l.file.length l.pending.length with
      | some n => (.error (.unwritten l.written), (l.land m n).cut m l.written)
      | none =>
        (.ok (), { l.land m l.pending.length with pending := [], written := l.written + l.pending.length }) := rfl

theorem append_eq {e : Entry} (hfits : Frame.Fits e) : l.append m now e =
    if l.poisoned then (.error (.storage .unusable), l)
    else
      match (l.queue e).settle m now with
      | (.ok (), l') => (.ok l.size, l')
      | (.error f, l') => (.error (.storage f), l'.rollback m l.size) := by
  rw [append, Frame.encode_eq_ok_iff.mpr ⟨hfits, rfl⟩]
  rfl

theorem replay_log : (l.replay m).2 = (l.flush m).2 := by
  rw [replay, replayFrom]
  cases l.flush m with
  | mk x l₁ =>
    cases x with
    | error e => rfl
    | ok u =>
      simp only
      cases Replay.ofBytes l₁.file <;> rfl

theorem flush_log : (l.flush m).2 = (l.writePending m).2 := by
  rw [flush]
  rcases l.writePending m with ⟨_ | _, l₁⟩ <;> rfl

theorem fsync_log : (l.fsync m now).2 = (l.sync m now).2 := by
  rw [fsync]
  rcases l.sync m now with ⟨_ | _, l₁⟩ <;> rfl

namespace History

/-- One call, at some time and with whatever the medium does. -/
def call (m : Medium) (now : Nat) (h : History) : Call → History
  | .append e =>
    match h.log.append m now e with
    | (.ok _, l) => ⟨l, h.acknowledged ++ [e]⟩
    | (.error _, l) => ⟨l, h.acknowledged⟩
  | .flush => ⟨(h.log.flush m).2, h.acknowledged⟩
  | .fsync => ⟨(h.log.fsync m now).2, h.acknowledged⟩
  | .syncIfOverdue => ⟨(h.log.syncIfOverdue m now).2, h.acknowledged⟩
  | .replay => ⟨(h.log.replay m).2, h.acknowledged⟩

theorem step_eq (h : History) (s : Step) : h.step s = h.call s.faults.medium s.now s.call := by
  obtain ⟨c, now, f⟩ := s
  cases c <;> rfl

end History

theorem durability_cut (n : Nat) (l : Log) : (l.cut m n).durability = l.durability := by
  rw [cut]
  split <;> rfl

theorem unsynced_cut (n : Nat) (l : Log) : (l.cut m n).unsynced = l.unsynced := by
  rw [cut]
  split <;> rfl

theorem durability_writePending (m : Medium) (l : Log) : (l.writePending m).2.durability = l.durability := by
  rw [writePending_eq]
  split
  · rfl
  · split
    · exact durability_cut _ _
    · rfl

theorem unsynced_writePending (m : Medium) (l : Log) : (l.writePending m).2.unsynced = l.unsynced := by
  rw [writePending_eq]
  split
  · rfl
  · split
    · exact unsynced_cut _ _
    · rfl

theorem sync_cases {r : Except StorageFault Unit} (h : l.sync m now = (r, l')) :
    (∃ g, l.writePending m = (.error g, l') ∧ r = .error g) ∨
    (l.writePending m = (.ok (), l') ∧ m.syncs = false ∧ r = .error .unsynced) ∨
    ∃ l₁, l.writePending m = (.ok (), l₁) ∧ m.syncs = true ∧ r = .ok () ∧
      l' = { l₁ with unsynced := 0, lastSync := now } := by
  rw [sync] at h
  cases hw : l.writePending m with
  | mk x l₁ =>
    rw [hw] at h
    cases x with
    | error g =>
      cases h
      exact .inl ⟨g, rfl, rfl⟩
    | ok u =>
      cases hs : m.syncs with
      | false =>
        simp only [hs] at h
        cases h
        exact .inr (.inl ⟨rfl, rfl, rfl⟩)
      | true =>
        simp only [hs] at h
        cases h
        exact .inr (.inr ⟨l₁, rfl, rfl, rfl, rfl⟩)

theorem durability_sync (m : Medium) (now : Nat) (l : Log) : (l.sync m now).2.durability = l.durability := by
  have hwrite := durability_writePending m l
  cases h : l.sync m now with
  | mk r l' =>
    rcases sync_cases h with ⟨g, hw, -⟩ | ⟨hw, -⟩ | ⟨l₁, hw, -, -, rfl⟩ <;> (rw [hw] at hwrite; exact hwrite)

theorem unsynced_of_sync_error {g : StorageFault} (h : l.sync m now = (.error g, l')) :
    l'.unsynced = l.unsynced := by
  have hwrite := unsynced_writePending m l
  rcases sync_cases h with ⟨g, hw, -⟩ | ⟨hw, -⟩ | ⟨l₁, -, -, hr, -⟩
  · rw [hw] at hwrite
    exact hwrite
  · rw [hw] at hwrite
    exact hwrite
  · cases hr

theorem unsynced_of_sync_ok (h : l.sync m now = (.ok (), l')) : l'.unsynced = 0 := by
  rcases sync_cases h with ⟨g, -, hr⟩ | ⟨-, -, hr⟩ | ⟨l₁, -, -, -, rfl⟩
  · cases hr
  · cases hr
  · rfl

theorem syncs_of_sync_ok (h : l.sync m now = (.ok (), l')) : m.syncs = true := by
  rcases sync_cases h with ⟨g, -, hr⟩ | ⟨-, -, hr⟩ | ⟨l₁, -, hs, -, -⟩
  · cases hr
  · cases hr
  · exact hs

theorem pending_of_writePending_ok (h : l.writePending m = (.ok (), l')) : l'.pending = [] := by
  rw [writePending_eq] at h
  split at h
  · cases h
    assumption
  · split at h
    · cases h
    · cases h
      rfl

theorem pending_of_sync_ok (h : l.sync m now = (.ok (), l')) : l'.pending = [] := by
  rcases sync_cases h with ⟨g, -, hr⟩ | ⟨-, -, hr⟩ | ⟨l₁, hw, -, -, rfl⟩
  · cases hr
  · cases hr
  · have hpending : l₁.pending = [] := pending_of_writePending_ok hw
    exact hpending

theorem durability_settle (m : Medium) (now : Nat) (l : Log) : (l.settle m now).2.durability = l.durability := by
  rw [settle_eq]
  split
  · exact durability_sync m now l
  · split
    · exact durability_writePending m l
    · rfl

theorem unsynced_of_settle_error {g : StorageFault} (h : l.settle m now = (.error g, l')) :
    l'.unsynced = l.unsynced := by
  have hwrite := unsynced_writePending m l
  rw [settle_eq] at h
  split at h
  · exact unsynced_of_sync_error h
  · split at h
    · rw [h] at hwrite
      exact hwrite
    · cases h

theorem unsynced_of_settle_ok (h : l.settle m now = (.ok (), l')) :
    l'.unsynced = if l.due now then 0 else l.unsynced := by
  have hwrite := unsynced_writePending m l
  rw [settle_eq] at h
  by_cases hdue : l.due now = true
  · rw [if_pos hdue] at h ⊢
    exact unsynced_of_sync_ok h
  · rw [if_neg hdue] at h ⊢
    split at h
    · rw [h] at hwrite
      exact hwrite
    · cases h
      rfl

theorem durability_rollback (m : Medium) (start : Nat) (l : Log) :
    (l.rollback m start).durability = l.durability := by
  rw [rollback]
  split
  · exact durability_cut start l
  · rfl

theorem unsynced_rollback (m : Medium) (start : Nat) (l : Log) :
    (l.rollback m start).unsynced = l.unsynced - 1 := by
  rw [rollback]
  split
  · exact congrArg (· - 1) (unsynced_cut start l)
  · rfl

theorem fsync_eq_ok_iff : l.fsync m now = (.ok (), l') ↔ l.sync m now = (.ok (), l') := by
  rw [fsync]
  rcases l.sync m now with ⟨_ | _, l₁⟩ <;> simp

theorem syncIfOverdue_cases {r : Except Error Bool} (h : l.syncIfOverdue m now = (r, l')) :
    (r = .ok true ∧ l.overdue now = true ∧ l.fsync m now = (.ok (), l')) ∨
    (r = .ok false ∧ l.overdue now = false ∧ l' = l) ∨
    ∃ g, r = .error g ∧ l.fsync m now = (.error g, l') := by
  rw [syncIfOverdue_eq] at h
  split at h
  · rename_i hover
    split at h
    · rename_i hs
      cases h
      exact .inl ⟨rfl, hover, hs⟩
    · rename_i g _ hs
      cases h
      exact .inr (.inr ⟨g, rfl, hs⟩)
  · rename_i hover
    cases h
    exact .inr (.inl ⟨rfl, Bool.eq_false_iff.mpr hover, rfl⟩)

theorem durability_append (m : Medium) (now : Nat) (e : Entry) (l : Log) :
    (l.append m now e).2.durability = l.durability := by
  have hsettle := durability_settle m now (l.queue e)
  cases ha : l.append m now e with
  | mk r l' =>
    rcases append_cases ha with ⟨-, rfl⟩ | ⟨-, -, -, hs⟩ | ⟨-, -, g, l₁, -, hs, rfl⟩
    · rfl
    · rw [hs] at hsettle
      exact hsettle
    · rw [hs] at hsettle
      exact (durability_rollback m l.size l₁).trans hsettle

namespace History

/-- All that a call other than an append does to a log is to write what waits, or to sync. -/
theorem call_cases (m : Medium) (now : Nat) (h : History) (c : Call) :
    (∃ e, c = .append e) ∨ ∃ l, h.call m now c = ⟨l, h.acknowledged⟩ ∧
      (l = h.log ∨ l = (h.log.writePending m).2 ∨ l = (h.log.sync m now).2) := by
  cases c with
  | append e => exact .inl ⟨e, rfl⟩
  | flush => exact .inr ⟨_, by rw [call, flush_log], .inr (.inl rfl)⟩
  | fsync => exact .inr ⟨_, by rw [call, fsync_log], .inr (.inr rfl)⟩
  | syncIfOverdue =>
    refine .inr ⟨_, rfl, ?_⟩
    have hlog : (h.log.fsync m now).2 = (h.log.sync m now).2 := fsync_log
    cases ho : h.log.syncIfOverdue m now with
    | mk r l =>
      rcases syncIfOverdue_cases ho with ⟨-, -, hf⟩ | ⟨-, -, rfl⟩ | ⟨g, -, hf⟩
      · exact .inr (.inr (hlog ▸ hf ▸ rfl))
      · exact .inl rfl
      · exact .inr (.inr (hlog ▸ hf ▸ rfl))
  | replay => exact .inr ⟨_, by rw [call, replay_log, flush_log], .inr (.inl rfl)⟩

theorem durability_call (m : Medium) (now : Nat) (h : History) (c : Call) :
    (h.call m now c).log.durability = h.log.durability := by
  rcases call_cases m now h c with ⟨e, rfl⟩ | ⟨l, hl, rfl | rfl | rfl⟩
  · have happend := durability_append m now e h.log
    rw [call]
    split <;> (rename_i ha; rwa [ha] at happend)
  · rw [hl]
  · rw [hl, durability_writePending]
  · rw [hl, durability_sync]

end History

theorem writePending_sound (l : Log) : (l.writePending .sound).1 = .ok () := by
  rw [writePending_eq]
  split <;> rfl

theorem sync_sound (l : Log) (now : Nat) : (l.sync .sound now).1 = .ok () := by
  have hwrite := l.writePending_sound
  cases h : l.sync .sound now with
  | mk r l' =>
    rcases sync_cases h with ⟨g, hw, -⟩ | ⟨-, hs, -⟩ | ⟨-, -, -, hr, -⟩
    · rw [hw] at hwrite
      cases hwrite
    · cases hs
    · exact hr

theorem settle_sound (l : Log) (now : Nat) : (l.settle .sound now).1 = .ok () := by
  rw [settle_eq]
  split
  · exact sync_sound l now
  · split
    · exact writePending_sound l
    · rfl

theorem append_sound {e : Entry} (now : Nat) (he : Frame.Fits e) (hp : l.poisoned = false) :
    ∃ l', l.append .sound now e = (.ok l.size, l') ∧ l'.durability = l.durability := by
  have hsettle := (l.queue e).settle_sound now
  have hdurability := durability_settle .sound now (l.queue e)
  cases hs : (l.queue e).settle .sound now with
  | mk x l' =>
    rw [hs] at hsettle hdurability
    obtain rfl : x = .ok () := hsettle
    refine ⟨l', ?_, hdurability⟩
    rw [append_eq he, hp, if_neg Bool.false_ne_true, hs]

theorem poisoned_of_writePending_ok (h : l.writePending m = (.ok (), l')) : l'.poisoned = l.poisoned := by
  rw [writePending_eq] at h
  split at h
  · cases h
    rfl
  · split at h
    · cases h
    · cases h
      rfl

theorem poisoned_of_sync_ok (h : l.sync m now = (.ok (), l')) : l'.poisoned = l.poisoned := by
  rcases sync_cases h with ⟨g, -, hr⟩ | ⟨-, -, hr⟩ | ⟨l₁, hw, -, -, rfl⟩
  · cases hr
  · cases hr
  · have hwrite : l₁.poisoned = l.poisoned := poisoned_of_writePending_ok hw
    exact hwrite

theorem poisoned_of_settle_ok (h : l.settle m now = (.ok (), l')) : l'.poisoned = l.poisoned := by
  rw [settle_eq] at h
  split at h
  · exact poisoned_of_sync_ok h
  · split at h
    · exact poisoned_of_writePending_ok h
    · cases h
      rfl

theorem usable_of_append_ok {e : Entry} {n : Nat} (h : l.append m now e = (.ok n, l')) : l'.poisoned = false := by
  rcases append_cases h with ⟨⟨g, hr⟩, -⟩ | ⟨-, husable, -, hs⟩ | ⟨-, -, g, l₁, hr, -⟩
  · cases hr
  · exact (poisoned_of_settle_ok hs).trans husable
  · cases hr

theorem truncate_ofFile {durability : Durability} {bs tail : List UInt8} {opened : Nat}
    (h : (ofFile durability (bs ++ tail) opened).truncate m bs.length = (.ok (), l)) :
    l = ofFile durability bs opened := by
  simp only [truncate, flush, writePending, ofFile, if_true, resize_append_length] at h
  split at h
  · split at h
    · cases h
      rfl
    · cases h
  · cases h

theorem truncate_sound (durability : Durability) (bs tail : List UInt8) (opened : Nat) :
    (ofFile durability (bs ++ tail) opened).truncate .sound bs.length = (.ok (), ofFile durability bs opened) := by
  simp only [truncate, flush, writePending, ofFile, if_true, resize_append_length]
  rfl

end Log
end FlightTrace
