import FlightTrace.Proofs.LogCalls

/-! A log on a file that had content. What was in the file when the log was opened is never looked at and never
changed by an append, a flush or a sync, whatever fails: the log does behind the older bytes just what it would do
on an empty file. -/
namespace FlightTrace

/-- How a medium answers for the part of a file that lies behind so many older bytes. -/
def Medium.behind (older : Nat) (m : Medium) : Medium :=
  { m with
    landed? := fun length count => m.landed? (older + length) count
    resizes := fun old new => m.resizes (older + old) (older + new) }

namespace Log

/-- The log, with its file behind older bytes. -/
def onto (base : List UInt8) (l : Log) : Log :=
  { l with file := base ++ l.file, written := base.length + l.written }

@[simp] theorem onto_pending (base : List UInt8) (l : Log) : (l.onto base).pending = l.pending := rfl

@[simp] theorem onto_poisoned (base : List UInt8) (l : Log) : (l.onto base).poisoned = l.poisoned := rfl

@[simp] theorem length_onto_file (base : List UInt8) (l : Log) :
    (l.onto base).file.length = base.length + l.file.length := List.length_append

@[simp] theorem onto_size (base : List UInt8) (l : Log) : (l.onto base).size = base.length + l.size :=
  Nat.add_assoc ..

@[simp] theorem onto_due (base : List UInt8) (now : Nat) (l : Log) : (l.onto base).due now = l.due now := rfl

@[simp] theorem onto_overdue (base : List UInt8) (now : Nat) (l : Log) :
    (l.onto base).overdue now = l.overdue now := rfl

/-- Two calls end alike if both succeed or both fail, and leave the same log but for older bytes. -/
structure EndAlike (base : List UInt8) {ε ε' α α' : Type} (p : Except ε α × Log) (q : Except ε' α' × Log) :
    Prop where
  log : q.2 = p.2.onto base
  isOk : q.1.isOk = p.1.isOk

variable (base : List UInt8) (m : Medium) (now : Nat) (l : Log)

theorem ofFile_eq_onto (durability : Durability) (base : List UInt8) (now : Nat) :
    ofFile durability base now = (ofFile durability [] now).onto base := by
  simp [ofFile, onto]

theorem resize_onto (bs : List UInt8) (n : Nat) :
    resize (base ++ bs) (base.length + n) = base ++ resize bs n := by
  have hmissing : base.length + n - (base ++ bs).length = n - bs.length := by
    rw [List.length_append]
    omega
  rw [resize, resize, hmissing, List.take_length_add_append, List.append_assoc]

theorem cut_onto (n : Nat) :
    (l.onto base).cut m (base.length + n) = (l.cut (m.behind base.length) n).onto base := by
  rw [cut, cut, length_onto_file, Medium.behind]
  by_cases hr : m.resizes (base.length + l.file.length) (base.length + n) = true
  · rw [if_pos hr, if_pos hr]
    simp only [onto, resize_onto]
  · rw [if_neg hr, if_neg hr]
    rfl

theorem land_onto (n : Nat) :
    (l.onto base).land m n = (l.land (m.behind base.length) n).onto base := by
  rw [land, land, Medium.behind]
  by_cases hk : m.keeps = true
  · rw [if_pos hk, if_pos hk]
    simp only [onto, List.append_assoc]
  · rw [if_neg hk, if_neg hk]

theorem writePending_onto :
    EndAlike base (l.writePending (m.behind base.length)) ((l.onto base).writePending m) := by
  have hland : (m.behind base.length).landed? l.file.length l.pending.length =
      m.landed? (base.length + l.file.length) l.pending.length := rfl
  rw [writePending_eq, writePending_eq, onto_pending, length_onto_file, hland]
  by_cases hp : l.pending = []
  · rw [if_pos hp, if_pos hp]
    exact ⟨rfl, rfl⟩
  · rw [if_neg hp, if_neg hp]
    cases m.landed? (base.length + l.file.length) l.pending.length with
    | some n =>
      refine ⟨?_, rfl⟩
      simp only [land_onto]
      exact cut_onto base m (l.land (m.behind base.length) n) l.written
    | none =>
      refine ⟨?_, rfl⟩
      simp only [land_onto]
      simp only [onto, Nat.add_assoc]

theorem EndAlike.cases {ε ε' α α' : Type} {p : Except ε α × Log} {q : Except ε' α' × Log}
    (h : EndAlike base p q) :
    (∃ a a' l, p = (.ok a, l) ∧ q = (.ok a', l.onto base)) ∨
      ∃ e e' l, p = (.error e, l) ∧ q = (.error e', l.onto base) := by
  obtain ⟨x, l₁⟩ := p
  obtain ⟨y, l₂⟩ := q
  obtain rfl : l₂ = l₁.onto base := h.log
  cases x <;> cases y
  · exact .inr ⟨_, _, _, rfl, rfl⟩
  · cases h.isOk
  · cases h.isOk
  · exact .inl ⟨_, _, _, rfl, rfl⟩

theorem sync_onto : EndAlike base (l.sync (m.behind base.length) now) ((l.onto base).sync m now) := by
  rcases (writePending_onto base m l).cases with
    ⟨_, _, l₁, hp, hq⟩ | ⟨_, _, l₁, hp, hq⟩
  · rw [sync, sync, hp, hq]
    cases hs : m.syncs <;> (simp only [Medium.behind, hs]; exact ⟨rfl, rfl⟩)
  · rw [sync, sync, hp, hq]
    exact ⟨rfl, rfl⟩

theorem settle_onto : EndAlike base (l.settle (m.behind base.length) now) ((l.onto base).settle m now) := by
  rw [settle_eq, settle_eq, onto_due, onto_pending]
  split
  · exact sync_onto base m now l
  · split
    · exact writePending_onto base m l
    · exact ⟨rfl, rfl⟩

theorem rollback_onto (start : Nat) :
    (l.onto base).rollback m (base.length + start) = (l.rollback (m.behind base.length) start).onto base := by
  have hlt : base.length + start < (l.onto base).written ↔ start < l.written := Nat.add_lt_add_iff_left
  have hsub : base.length + start - (l.onto base).written = start - l.written := Nat.add_sub_add_left ..
  rw [rollback, rollback]
  by_cases hs : start < l.written
  · rw [if_pos (hlt.mpr hs), if_pos hs, cut_onto]
    rfl
  · rw [if_neg fun h => hs (hlt.mp h), if_neg hs, hsub]
    rfl

theorem flush_onto : EndAlike base (l.flush (m.behind base.length)) ((l.onto base).flush m) := by
  rcases (writePending_onto base m l).cases with
    ⟨_, _, l₁, hp, hq⟩ | ⟨_, _, l₁, hp, hq⟩ <;> (rw [flush, flush, hp, hq]; exact ⟨rfl, rfl⟩)

theorem fsync_onto : EndAlike base (l.fsync (m.behind base.length) now) ((l.onto base).fsync m now) := by
  rcases (sync_onto base m now l).cases with
    ⟨_, _, l₁, hp, hq⟩ | ⟨_, _, l₁, hp, hq⟩ <;> (rw [fsync, fsync, hp, hq]; exact ⟨rfl, rfl⟩)

theorem syncIfOverdue_onto :
    EndAlike base (l.syncIfOverdue (m.behind base.length) now) ((l.onto base).syncIfOverdue m now) := by
  rw [syncIfOverdue_eq, syncIfOverdue_eq, onto_overdue]
  cases l.overdue now with
  | false => exact ⟨rfl, rfl⟩
  | true =>
    rcases (fsync_onto base m now l).cases with
      ⟨_, _, l₁, hp, hq⟩ | ⟨_, _, l₁, hp, hq⟩ <;> (rw [if_pos rfl, if_pos rfl, hp, hq]; exact ⟨rfl, rfl⟩)

theorem append_onto (e : Entry) :
    EndAlike base (l.append (m.behind base.length) now e) ((l.onto base).append m now e) := by
  cases he : Frame.encode e with
  | error f =>
    rw [append, append, he]
    exact ⟨rfl, rfl⟩
  | ok frame =>
    have hfits := (Frame.encode_eq_ok_iff.mp he).1
    have hqueue : (l.onto base).queue e = (l.queue e).onto base := rfl
    rw [append_eq hfits, append_eq hfits, onto_poisoned, hqueue, onto_size]
    cases l.poisoned with
    | true => exact ⟨rfl, rfl⟩
    | false =>
      rcases (settle_onto base m now (l.queue e)).cases with
        ⟨_, _, l₁, hs, hq⟩ | ⟨_, _, l₁, hs, hq⟩
      · rw [if_neg Bool.false_ne_true, if_neg Bool.false_ne_true, hs, hq]
        exact ⟨rfl, rfl⟩
      · rw [if_neg Bool.false_ne_true, if_neg Bool.false_ne_true, hs, hq]
        exact ⟨rollback_onto base m l₁ l.size, rfl⟩

/-- How a file answers for what lies behind so many older bytes. -/
def Faults.behind (older : Nat) (f : Faults) : Faults :=
  { f with landed? := fun length count => f.landed? (older + length) count }

def Step.behind (older : Nat) (s : Step) : Step := { s with faults := s.faults.behind older }

namespace History

def on (durability : Durability) (base : List UInt8) (now : Nat) : History := ⟨.ofFile durability base now, []⟩

def onto (base : List UInt8) (h : History) : History := { h with log := h.log.onto base }

theorem on_eq_onto (durability : Durability) (base : List UInt8) (now : Nat) :
    on durability base now = (start durability now).onto base :=
  congrArg (History.mk · []) (ofFile_eq_onto durability base now)

theorem call_onto (h : History) (c : Call) :
    (h.onto base).call m now c = (h.call (m.behind base.length) now c).onto base := by
  cases c with
  | append e =>
    rcases (append_onto base m now h.log e).cases with
      ⟨_, _, l₁, ha, hb⟩ | ⟨_, _, l₁, ha, hb⟩ <;> (simp only [call, onto, ha, hb])
  | flush => exact congrArg (History.mk · h.acknowledged) (flush_onto base m h.log).log
  | fsync => exact congrArg (History.mk · h.acknowledged) (fsync_onto base m now h.log).log
  | syncIfOverdue => exact congrArg (History.mk · h.acknowledged) (syncIfOverdue_onto base m now h.log).log
  | replay =>
    simp only [call, replay_log]
    exact congrArg (History.mk · h.acknowledged) (flush_onto base m h.log).log

theorem step_onto (h : History) (s : Step) : (h.onto base).step s = (h.step (s.behind base.length)).onto base := by
  rw [step_eq, step_eq, call_onto]
  rfl

end History
end Log
end FlightTrace
