import FlightTrace.Proofs.CutLog
import FlightTrace.Proofs.LogOnto

/-! A log whose file could not be cut back after a failed write. It takes no more entries, but only an append looks
at that: frames that wait there are written by the next call that can, behind what is left of them already. Where
none wait, the file is never touched again. -/
namespace FlightTrace
namespace Log

/-- How a file answers one call, when cutting it may fail too. -/
structure Trouble extends Faults where
  cuts : Nat → Nat → Bool

def Trouble.medium (t : Trouble) : Medium := { t.toFaults.medium with resizes := t.cuts }

structure Event where
  call : Call
  now : Nat
  trouble : Trouble

namespace History

def meet (h : History) (e : Event) : History := h.call e.trouble.medium e.now e.call

def meetAll (h : History) (events : List Event) : History := events.foldl meet h

/-- Whenever a call is made on an unusable log, it finds no frames waiting. -/
def FindsNoneWaiting (h : History) : List Event → Prop
  | [] => True
  | e :: events => (h.log.poisoned = true → h.log.pending = []) ∧ (h.meet e).FindsNoneWaiting events

end History

variable {l l' : Log} {es : List Entry} {m : Medium} {now : Nat}

/-- What a write leaves that fails and cannot be undone: a part of the waiting frames, which go on waiting. -/
structure Spoilt (l l' : Log) : Prop where
  poisoned : l'.poisoned = true
  file : ∃ part, part <+: l.pending ∧ l'.file = l.file ++ part
  pending : l'.pending = l.pending
  written : l'.written = l.written

def Tried (l l' : Log) : Prop := Moved l l' ∨ Spoilt l l'

theorem writePending_tried (t : Trouble) (hw : l.written = l.file.length) :
    Tried l (l.writePending t.medium).2 := by
  rw [writePending_eq]
  by_cases hp : l.pending = []
  · rw [if_pos hp]
    exact .inl (.refl l)
  · rw [if_neg hp]
    have hland (n : Nat) : l.land t.medium n = { l with file := l.file ++ l.pending.take n } := rfl
    cases t.medium.landed? l.file.length l.pending.length with
    | none =>
      refine .inl ⟨rfl, .inr ⟨?_, rfl, rfl⟩⟩
      simp only [hland, List.take_length]
    | some n =>
      simp only [hland, cut]
      split
      · refine .inl ⟨rfl, .inl ⟨?_, rfl, rfl⟩⟩
        simp only [hw, resize_append_length]
      · exact .inr ⟨rfl, ⟨_, List.take_prefix n _, rfl⟩, rfl, rfl⟩

theorem sync_tried (t : Trouble) (hw : l.written = l.file.length) : Tried l (l.sync t.medium now).2 := by
  have htried := writePending_tried t hw
  cases hs : l.sync t.medium now with
  | mk r l' =>
    rcases sync_cases hs with ⟨g, hp, -⟩ | ⟨hp, -⟩ | ⟨l₁, hp, -, -, rfl⟩
    · rwa [hp] at htried
    · rwa [hp] at htried
    · rw [hp] at htried
      exact htried.imp (fun hm => ⟨hm.usable, hm.frames⟩) fun hs => ⟨hs.poisoned, hs.file, hs.pending, hs.written⟩

theorem settle_tried (t : Trouble) (now : Nat) (hw : l.written = l.file.length) :
    Tried l (l.settle t.medium now).2 := by
  rw [settle_eq]
  split
  · exact sync_tried t hw
  · split
    · exact writePending_tried t hw
    · exact .inl (.refl l)

/-- An unusable log. Its file holds a front of the frames of some entries and at most of one more, which it refused. -/
structure Stuck (l : Log) (es : List Entry) : Prop where
  poisoned : l.poisoned = true
  file : ∃ failed, failed.length ≤ 1 ∧ (∀ e ∈ failed, Frame.Fits e) ∧ l.file <+: Replay.frames (es ++ failed)
  fits : ∀ e ∈ es, Frame.Fits e

theorem Holds.tried (h : l.Holds es) (ht : Tried l l') : l'.Holds es ∨ l'.Stuck es := by
  rcases ht with hm | hs
  · exact .inl (h.moved hm)
  · obtain ⟨part, hpart, hfile⟩ := hs.file
    refine .inr ⟨hs.poisoned, ⟨[], Nat.zero_le 1, fun e he => absurd he List.not_mem_nil, ?_⟩, h.fits⟩
    rw [hfile, List.append_nil, ← h.stream]
    exact (List.prefix_append_right_inj _).mpr hpart

theorem rollback_cases (t : Trouble) (start : Nat) (l : Log) :
    l.rollback t.medium start = l.rollback t.toFaults.medium start ∨
      (start < l.written ∧ l.rollback t.medium start =
        { l with written := start, poisoned := true, unsynced := l.unsynced - 1 }) := by
  rw [rollback, rollback]
  by_cases hs : start < l.written
  · rw [if_pos hs, if_pos hs, cut, cut]
    by_cases hr : t.medium.resizes l.file.length start = true
    · rw [if_pos hr]
      exact .inl rfl
    · rw [if_neg hr]
      exact .inr ⟨hs, rfl⟩
  · rw [if_neg hs, if_neg hs]
    exact .inl rfl

theorem rollback_tried (t : Trouble) (h : l.Holds es) {e : Entry} (he : Frame.Fits e) (ht : Tried (l.queue e) l') :
    (l'.rollback t.medium l.size).Holds es ∨ (l'.rollback t.medium l.size).Stuck es := by
  have hqueue := queue_holds h he
  have hfailed : ∀ x ∈ [e], Frame.Fits x := fun x hx => List.mem_singleton.mp hx ▸ he
  rcases ht with hm | hs
  · rcases rollback_cases t l.size l' with hr | ⟨hlt, hr⟩
    · rw [hr]
      exact .inl (rollback_holds t.toFaults h hm)
    · rw [hr]
      have hfile : l'.file = Replay.frames (es ++ [e]) := by
        rcases hm.frames with ⟨-, -, hw⟩ | ⟨hf, -, -⟩
        · rw [hw] at hlt
          exact absurd hlt (Nat.not_lt.mpr (Nat.le_add_right _ _))
        · rw [hf, hqueue.stream]
      exact .inr ⟨rfl, ⟨[e], Nat.le_refl 1, hfailed, hfile ▸ List.prefix_rfl⟩, h.fits⟩
  · -- a part of the waiting frames is in the file, and perhaps of this one
    have hlt : ¬l.size < l'.written := by
      rw [hs.written]
      exact Nat.not_lt.mpr (Nat.le_add_right _ _)
    obtain ⟨part, hpart, hfile⟩ := hs.file
    rw [rollback, if_neg hlt]
    refine .inr ⟨hs.poisoned, ⟨[e], Nat.le_refl 1, hfailed, ?_⟩, h.fits⟩
    rw [hfile, ← hqueue.stream]
    exact (List.prefix_append_right_inj _).mpr hpart

namespace History

/-- What the log of a history is like, as far as none of its frames were written twice. -/
def Sane (h : History) : Prop := h.log.Holds h.acknowledged ∨ h.log.Stuck h.acknowledged

variable {h : History} {c : Call}

theorem call_sane_of_holds (t : Trouble) (hh : h.log.Holds h.acknowledged) : (h.call t.medium now c).Sane := by
  rcases call_cases t.medium now h c with ⟨e, rfl⟩ | ⟨l, hl, rfl | rfl | rfl⟩
  · rw [call]
    cases ha : h.log.append t.medium now e with
    | mk r l =>
      rcases append_cases ha with ⟨⟨g, rfl⟩, rfl⟩ | ⟨he, -, rfl, hs⟩ | ⟨he, -, g, l₁, rfl, hs, rfl⟩
      · exact .inl hh
      · have htried := settle_tried t now (queue_holds hh he).written
        rw [hs] at htried
        exact (queue_holds hh he).tried htried
      · have htried := settle_tried t now (queue_holds hh he).written
        rw [hs] at htried
        exact rollback_tried t hh he htried
  · exact hl ▸ .inl hh
  · exact hl ▸ hh.tried (writePending_tried t hh.written)
  · exact hl ▸ hh.tried (sync_tried t hh.written)

end History

theorem writePending_of_idle (hi : l.pending = []) : l.writePending m = (.ok (), l) := if_pos hi

theorem sync_of_idle (hi : l.pending = []) : (l.sync m now).2.file = l.file ∧ (l.sync m now).2.pending = [] := by
  cases hs : l.sync m now with
  | mk r l' =>
    rcases sync_cases hs with ⟨g, hp, -⟩ | ⟨hp, -⟩ | ⟨l₁, hp, -, -, rfl⟩
    · rw [writePending_of_idle hi] at hp
      cases hp
    · rw [writePending_of_idle hi] at hp
      cases hp
      exact ⟨rfl, hi⟩
    · rw [writePending_of_idle hi] at hp
      cases hp
      exact ⟨rfl, hi⟩

theorem poisoned_writePending (m : Medium) (hp : l.poisoned = true) : (l.writePending m).2.poisoned = true := by
  rw [writePending_eq]
  split
  · exact hp
  · split
    · rw [cut]
      split
      · exact hp
      · rfl
    · exact hp

theorem poisoned_sync (m : Medium) (now : Nat) (hp : l.poisoned = true) : (l.sync m now).2.poisoned = true := by
  have hwrite := poisoned_writePending m hp
  cases hs : l.sync m now with
  | mk r l' =>
    rcases sync_cases hs with ⟨g, hw, -⟩ | ⟨hw, -⟩ | ⟨l₁, hw, -, -, rfl⟩ <;> (rw [hw] at hwrite; exact hwrite)

theorem append_of_poisoned (hp : l.poisoned = true) (m : Medium) (now : Nat) (e : Entry) :
    ∃ g, l.append m now e = (.error g, l) := by
  cases ha : l.append m now e with
  | mk r l' =>
    rcases append_cases ha with ⟨⟨g, rfl⟩, rfl⟩ | ⟨-, hq, -⟩ | ⟨-, hq, -⟩
    · exact ⟨g, rfl⟩
    · rw [hp] at hq
      cases hq
    · rw [hp] at hq
      cases hq

theorem waiting_of_writePending_error {g : StorageFault} (h : l.writePending m = (.error g, l')) :
    l'.pending = l.pending ∧ l'.written = l.written := by
  rw [writePending_eq] at h
  split at h
  · cases h
  · split at h
    · cases h
      rw [cut]
      split <;> exact ⟨rfl, rfl⟩
    · cases h

theorem pending_rollback (m : Medium) (start : Nat) (l : Log) : (l.rollback m start).pending =
    if start < l.written then l.pending else l.pending.take (start - l.written) := by
  rw [rollback]
  split
  · rw [cut]
    split <;> rfl
  · rfl

/-- A log that syncs each entry leaves none waiting, not even if that fails. -/
theorem pending_append_strict (hd : l.durability = .strict) (hi : l.pending = []) (m : Medium) (now : Nat)
    (e : Entry) : (l.append m now e).2.pending = [] := by
  have hsettle : (l.queue e).settle m now = (l.queue e).sync m now := by
    rw [settle, show (l.queue e).durability = .strict from hd]
  cases ha : l.append m now e with
  | mk r l' =>
    rcases append_cases ha with ⟨-, rfl⟩ | ⟨-, -, -, hs⟩ | ⟨-, -, g, l₁, -, hs, rfl⟩
    · exact hi
    · exact pending_of_sync_ok (hsettle ▸ hs)
    · rw [hsettle] at hs
      rcases sync_cases hs with ⟨f, hw, -⟩ | ⟨hw, -⟩ | ⟨-, -, -, hr, -⟩
      · -- the frame still waits, alone, and is taken out again
        obtain ⟨-, hwritten⟩ := waiting_of_writePending_error hw
        have hsize : l.size = l₁.written := by
          rw [hwritten, size, hi]
          rfl
        rw [pending_rollback, hsize, if_neg (Nat.lt_irrefl _), Nat.sub_self, List.take_zero]
      · rw [pending_rollback, pending_of_writePending_ok hw, List.take_nil, ite_self]
      · cases hr

namespace History

variable {h : History} {events : List Event}

theorem call_of_poisoned (hp : h.log.poisoned = true) (m : Medium) (now : Nat) (c : Call) :
    (h.call m now c).log.poisoned = true ∧ (h.call m now c).acknowledged = h.acknowledged := by
  rcases call_cases m now h c with ⟨e, rfl⟩ | ⟨l, hl, rfl | rfl | rfl⟩
  · obtain ⟨g, ha⟩ := append_of_poisoned hp m now e
    rw [call, ha]
    exact ⟨hp, rfl⟩
  · exact hl ▸ ⟨hp, rfl⟩
  · exact hl ▸ ⟨poisoned_writePending m hp, rfl⟩
  · exact hl ▸ ⟨poisoned_sync m now hp, rfl⟩

/-- If nothing waits in an unusable log, its file is left as it is. -/
theorem call_of_idle (hp : h.log.poisoned = true) (hi : h.log.pending = []) (m : Medium) (now : Nat) (c : Call) :
    (h.call m now c).log.file = h.log.file ∧ (h.call m now c).log.pending = [] := by
  rcases call_cases m now h c with ⟨e, rfl⟩ | ⟨l, hl, rfl | rfl | rfl⟩
  · obtain ⟨g, ha⟩ := append_of_poisoned hp m now e
    rw [call, ha]
    exact ⟨rfl, hi⟩
  · exact hl ▸ ⟨rfl, hi⟩
  · rw [hl, writePending_of_idle hi]
    exact ⟨rfl, hi⟩
  · exact hl ▸ sync_of_idle hi

theorem call_sane (hh : h.Sane) (hw : h.log.poisoned = true → h.log.pending = []) (t : Trouble) (now : Nat)
    (c : Call) : (h.call t.medium now c).Sane := by
  rcases hh with hh | hs
  · exact call_sane_of_holds t hh
  · obtain ⟨hfile, -⟩ := call_of_idle hs.poisoned (hw hs.poisoned) t.medium now c
    obtain ⟨hp, hacknowledged⟩ := call_of_poisoned hs.poisoned t.medium now c
    exact .inr ⟨hp, by rw [hfile, hacknowledged]; exact hs.file, by rw [hacknowledged]; exact hs.fits⟩

theorem meetAll_sane (hh : h.Sane) (hw : h.FindsNoneWaiting events) :
    (h.meetAll events).Sane := by
  induction events generalizing h with
  | nil => exact hh
  | cons e events ih => exact ih (call_sane hh hw.1 e.trouble e.now e.call) hw.2

theorem meetAll_of_idle (hp : h.log.poisoned = true) (hi : h.log.pending = []) (events : List Event) :
    (h.meetAll events).log.file = h.log.file ∧ (h.meetAll events).log.pending = [] ∧
      (h.meetAll events).acknowledged = h.acknowledged := by
  induction events generalizing h with
  | nil => exact ⟨rfl, hi, rfl⟩
  | cons e events ih =>
    have ⟨hp', hacknowledged⟩ := call_of_poisoned hp e.trouble.medium e.now e.call
    have ⟨hfile, hi'⟩ := call_of_idle hp hi e.trouble.medium e.now e.call
    have ⟨hfiles, hpendings, hall⟩ := ih (h := h.meet e) hp' hi'
    exact ⟨hfiles.trans hfile, hpendings, hall.trans hacknowledged⟩

theorem pending_call_strict (hd : h.log.durability = .strict) (hi : h.log.pending = []) (m : Medium) (now : Nat)
    (c : Call) : (h.call m now c).log.pending = [] := by
  rcases call_cases m now h c with ⟨e, rfl⟩ | ⟨l, hl, rfl | rfl | rfl⟩
  · have happend := pending_append_strict hd hi m now e
    rw [call]
    split <;> (rename_i ha; rwa [ha] at happend)
  · exact hl ▸ hi
  · rw [hl, writePending_of_idle hi]
    exact hi
  · exact hl ▸ (sync_of_idle hi).2

theorem findsNoneWaiting_strict (hd : h.log.durability = .strict) (hi : h.log.pending = []) (events : List Event) :
    h.FindsNoneWaiting events ∧ (h.meetAll events).log.pending = [] := by
  induction events generalizing h with
  | nil => exact ⟨trivial, hi⟩
  | cons e events ih =>
    have ⟨hw, hlast⟩ := ih (h := h.meet e) ((durability_call ..).trans hd)
      (pending_call_strict hd hi e.trouble.medium e.now e.call)
    exact ⟨⟨fun _ => hi, hw⟩, hlast⟩

end History

/-- A file that holds, behind older bytes, a front of the frames of some entries and at most of one more, so that no
entry is read from it twice. -/
def Unrepeated (base : List UInt8) (es : List Entry) (file : List UInt8) : Prop :=
  ∃ failed, failed.length ≤ 1 ∧ base <+: file ∧ file <+: base ++ Replay.frames (es ++ failed) ∧
    ∀ old, Replay.Framed base old → ∀ durability reopened m r,
      ((ofFile durability file reopened).replay m).1 = .ok r → r.entries <+: old ++ (es ++ failed)

def Trouble.behind (older : Nat) (t : Trouble) : Trouble :=
  { t with toFaults := t.toFaults.behind older, cuts := fun old new => t.cuts (older + old) (older + new) }

def Event.behind (older : Nat) (e : Event) : Event := { e with trouble := e.trouble.behind older }

namespace History

variable {h : History} {base : List UInt8}

theorem meet_onto (h : History) (e : Event) : (h.onto base).meet e = (h.meet (e.behind base.length)).onto base :=
  call_onto base e.trouble.medium e.now h e.call

theorem meetAll_onto (h : History) (events : List Event) :
    (h.onto base).meetAll events = (h.meetAll (events.map (·.behind base.length))).onto base := by
  induction events generalizing h with
  | nil => rfl
  | cons e events ih =>
    change ((h.onto base).meet e).meetAll events = _
    rw [meet_onto, ih]
    rfl

theorem findsNoneWaiting_onto_iff (h : History) (events : List Event) :
    (h.onto base).FindsNoneWaiting events ↔ h.FindsNoneWaiting (events.map (·.behind base.length)) := by
  induction events generalizing h with
  | nil => exact Iff.rfl
  | cons e events ih =>
    rw [FindsNoneWaiting, meet_onto, ih]
    exact Iff.rfl

theorem Sane.unrepeated (hh : h.Sane) (base : List UInt8) :
    Unrepeated base h.acknowledged (base ++ h.log.file) := by
  obtain ⟨failed, hlen, hfits, hfile⟩ : ∃ failed, failed.length ≤ 1 ∧
      (∀ e ∈ h.acknowledged ++ failed, Frame.Fits e) ∧ h.log.file <+: Replay.frames (h.acknowledged ++ failed) := by
    rcases hh with hh | hs
    · refine ⟨[], Nat.zero_le 1, by simpa using hh.fits, ?_⟩
      rw [List.append_nil, ← hh.stream]
      exact List.prefix_append _ _
    · obtain ⟨failed, hlen, hfailed, hfile⟩ := hs.file
      exact ⟨failed, hlen, List.forall_mem_append.mpr ⟨hs.fits, hfailed⟩, hfile⟩
  have hbehind : base ++ h.log.file <+: base ++ Replay.frames (h.acknowledged ++ failed) :=
    (List.prefix_append_right_inj base).mpr hfile
  refine ⟨failed, hlen, List.prefix_append _ _, hbehind, fun old hold durability reopened m r hr => ?_⟩
  exact Replay.entries_prefix_of_ofBytes (hold.append (Replay.framed_frames hfits)) hbehind
    (replay_ofFile_eq_ok_iff.mp hr)

theorem meetAll_of_poisoned (hp : h.log.poisoned = true) (events : List Event) :
    (h.meetAll events).log.poisoned = true ∧ (h.meetAll events).acknowledged = h.acknowledged := by
  induction events generalizing h with
  | nil => exact ⟨hp, rfl⟩
  | cons e events ih =>
    have ⟨hp', hacknowledged⟩ := call_of_poisoned hp e.trouble.medium e.now e.call
    have ⟨hlast, hall⟩ := ih (h := h.meet e) hp'
    exact ⟨hlast, hall.trans hacknowledged⟩

/-- A log is opened on any file, and any calls are made on it while writes, syncs and cutting the file may fail. It
syncs each entry, or it happens that no call is made on it while it is unusable and frames still wait. What it
leaves is then what the file held at first and a front of the frames of the acknowledged entries, and at most of one
more that was refused, so that no acknowledged entry is read from it twice; and once it is unusable and nothing waits
no call changes the file again. -/
theorem unusable_log_is_left_alone (durability : Durability) (base : List UInt8) (opened : Nat)
    (events : List Event)
    (hwaits : durability = .strict ∨ (on durability base opened).FindsNoneWaiting events) :
    let h := (on durability base opened).meetAll events
    (durability = .strict → h.log.pending = []) ∧
    (h.log.poisoned = false → h.log.file ++ h.log.pending = base ++ Replay.frames h.acknowledged) ∧
    Unrepeated base h.acknowledged h.log.file ∧
    ((h.log.poisoned = true → h.log.pending = []) → ∀ (t : Trouble) (now : Nat),
      Unrepeated base h.acknowledged (h.log.close t.medium now)) ∧
    (h.log.poisoned = true → ∀ later,
      (h.meetAll later).log.poisoned = true ∧ (h.meetAll later).acknowledged = h.acknowledged ∧
      (h.log.pending = [] → (h.meetAll later).log.file = h.log.file ∧
        ∀ m now, (h.meetAll later).log.close m now = h.log.file)) := by
  intro h
  have hnone : (on durability base opened).FindsNoneWaiting events := by
    rcases hwaits with rfl | hnone
    · exact (findsNoneWaiting_strict rfl rfl events).1
    · exact hnone
  obtain ⟨h₀, hh, hsane⟩ : ∃ h₀ : History, h = h₀.onto base ∧ h₀.Sane := by
    rw [on_eq_onto, findsNoneWaiting_onto_iff] at hnone
    exact ⟨_, by rw [← meetAll_onto, ← on_eq_onto], meetAll_sane (.inl (start_holds durability opened)) hnone⟩
  refine ⟨?_, ?_, ?_, ?_, fun hp later => ?_⟩
  · rintro rfl
    exact (findsNoneWaiting_strict rfl rfl events).2
  · rw [hh]
    intro hp
    rcases hsane with hh₀ | hs
    · exact (List.append_assoc ..).trans (congrArg (base ++ ·) hh₀.stream)
    · rw [onto, onto_poisoned, hs.poisoned] at hp
      cases hp
  · rw [hh]
    exact hsane.unrepeated base
  · rw [hh]
    intro hwaiting t now
    have hclose : (h₀.onto base).log.close t.medium now =
        base ++ (h₀.call (t.behind base.length).medium now .fsync).log.file := by
      rw [call, fsync_log]
      exact congrArg Log.file (sync_onto base t.medium now h₀.log).log
    rw [hclose]
    exact (call_sane hsane hwaiting (t.behind base.length) now .fsync).unrepeated base
  · obtain ⟨hlast, hacknowledged⟩ := meetAll_of_poisoned hp later
    refine ⟨hlast, hacknowledged, fun hi => ?_⟩
    obtain ⟨hfile, hpending, -⟩ := meetAll_of_idle hp hi later
    exact ⟨hfile, fun m now => (sync_of_idle hpending).1.trans hfile⟩

/-! The file takes all bytes that are written, but reports that it does not, and it cannot be cut back. -/

namespace Spoiling

def sound : Trouble := ⟨⟨fun _ _ => none, true⟩, fun _ _ => true⟩

def spoilt : Trouble := ⟨⟨fun _ count => some count, true⟩, fun _ _ => false⟩

end Spoiling

open Spoiling
open Replay (tagOn frames)

/-- The second of two entries is refused, but its frame stays in the file. Nothing more is written. -/
theorem refused_frame_is_left_alone :
    let events : List Event := [⟨.append (tagOn 1 ""), 0, sound⟩, ⟨.append (tagOn 2 ""), 0, spoilt⟩]
    let h := (on (.batched 1000 1) [] 0).meetAll events
    (on (.batched 1000 1) [] 0).FindsNoneWaiting events ∧ h.log.poisoned = true ∧ h.acknowledged = [tagOn 1 ""] ∧
      h.log.file = frames [tagOn 1 "", tagOn 2 ""] ∧ Unrepeated [] [tagOn 1 ""] h.log.file ∧
      ∀ later, (h.meetAll later).log.file = h.log.file := by
  intro events h
  have hnone : (on (.batched 1000 1) [] 0).FindsNoneWaiting events := ⟨by decide +kernel, by decide +kernel, trivial⟩
  have hp : h.log.poisoned = true := by decide +kernel
  have hi : h.log.pending = [] := by decide +kernel
  have hacknowledged : h.acknowledged = [tagOn 1 ""] := by decide +kernel
  obtain ⟨-, -, hunrepeated, -, hlater⟩ := unusable_log_is_left_alone _ [] 0 events (.inr hnone)
  exact ⟨hnone, hp, hacknowledged, by decide +kernel, hacknowledged ▸ hunrepeated,
    fun later => ((hlater hp later).2.2 hi).1⟩

/-- A batched log becomes unusable while the frame of an acknowledged entry waits. The next flush writes it again, or
else closing the log does, and it is read twice. -/
theorem waiting_frame_is_written_again :
    let h := (on (.batched 1000 10) [] 0).meetAll [⟨.append (tagOn 1 ""), 0, sound⟩, ⟨.flush, 0, spoilt⟩]
    let h' := h.meet ⟨.flush, 0, sound⟩
    h.log.poisoned = true ∧ h.acknowledged = [tagOn 1 ""] ∧ h.log.file = frames [tagOn 1 ""] ∧
      h.log.close .sound 0 = frames [tagOn 1 "", tagOn 1 ""] ∧
      h'.acknowledged = [tagOn 1 ""] ∧ h'.log.file = frames [tagOn 1 "", tagOn 1 ""] ∧
      (h'.log.replay .sound).1 = .ok ⟨[tagOn 1 "", tagOn 1 ""], 50, 0⟩ := by
  intro h h'
  have hfile : h'.log.file = frames [tagOn 1 "", tagOn 1 ""] := by decide +kernel
  have hfits : ∀ e ∈ [tagOn 1 "", tagOn 1 ""], Frame.Fits e := by decide
  have hflush : h'.log.flush .sound = (.ok (), h'.log) := by decide +kernel
  refine ⟨by decide +kernel, by decide +kernel, by decide +kernel, by decide +kernel, by decide +kernel, hfile, ?_⟩
  rw [replay, replayFrom, hflush]
  simp only [hfile, Replay.ofBytes_frames hfits]
  rfl

end History

end Log
end FlightTrace
