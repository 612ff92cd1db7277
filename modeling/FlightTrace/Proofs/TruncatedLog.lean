import FlightTrace.Proofs.PoisonedLog

/-! Where a log takes its file to end. However writes, syncs and cuts fail, a call leaves this place at the end of
the file or makes the log unusable, so that frames land where an append says and a cut only takes away. There is one
exception: a truncation gives the file its length first, and if the sync behind it fails, the log goes on as if the
file ended where it did before. -/
namespace FlightTrace
namespace Log

/-- A log that knows where its file ends, or takes no more entries. -/
def Tracked (l : Log) : Prop := l.poisoned = true ∨ l.written = l.file.length

/-- A truncation that moves the end of the file but then cannot sync it. -/
structure Slips (l : Log) (n : Nat) (t : Trouble) : Prop where
  flushed : (l.flush t.medium).1 = .ok ()
  moves : n ≠ l.size
  cuts : t.cuts l.size n = true
  unsynced : t.syncs = false

inductive Action where
  | call (e : Event)
  | truncate (n : Nat) (t : Trouble)

namespace History

def act (h : History) : Action → History
  | .call e => h.meet e
  | .truncate n t => { h with log := (h.log.truncate t.medium n).2 }

def actAll (h : History) (actions : List Action) : History := actions.foldl act h

/-- No truncation slips while the log takes entries. -/
def Unslipped (h : History) : List Action → Prop
  | [] => True
  | .call e :: actions => (h.act (.call e)).Unslipped actions
  | .truncate n t :: actions =>
    (h.log.poisoned = false → ¬h.log.Slips n t) ∧ (h.act (.truncate n t)).Unslipped actions

end History

variable {l l' : Log} {m : Medium} {t : Trouble} {now n : Nat} {e : Entry}

theorem moved_of_writePending_ok (h : l.writePending t.medium = (.ok (), l')) : Moved l l' := by
  rw [writePending_eq] at h
  split at h
  · cases h
    exact .refl l
  · split at h
    · cases h
    · cases h
      refine ⟨rfl, .inr ⟨?_, rfl, rfl⟩⟩
      change l.file ++ l.pending.take l.pending.length = l.file ++ l.pending
      rw [List.take_length]

theorem moved_of_flush_ok (h : l.flush t.medium = (.ok (), l')) : Moved l l' ∧ l'.pending = [] := by
  rw [flush] at h
  split at h
  · rename_i hw
    cases h
    exact ⟨moved_of_writePending_ok hw, pending_of_writePending_ok hw⟩
  · cases h

theorem moved_of_sync_ok (h : l.sync t.medium now = (.ok (), l')) : Moved l l' := by
  rcases sync_cases h with ⟨g, -, hr⟩ | ⟨-, -, hr⟩ | ⟨l₁, hw, -, -, rfl⟩
  · cases hr
  · cases hr
  · have hm := moved_of_writePending_ok hw
    exact ⟨hm.usable, hm.frames⟩

theorem moved_of_settle_ok (h : l.settle t.medium now = (.ok (), l')) : Moved l l' := by
  rw [settle_eq] at h
  split at h
  · exact moved_of_sync_ok h
  · split at h
    · exact moved_of_writePending_ok h
    · cases h
      exact .refl l

theorem Moved.stream (h : Moved l l') : l'.file ++ l'.pending = l.file ++ l.pending := by
  rcases h.frames with ⟨hf, hp, -⟩ | ⟨hf, hp, -⟩
  · rw [hf, hp]
  · rw [hf, hp, List.append_nil]

theorem Moved.written_eq (h : Moved l l') (hw : l.written = l.file.length) : l'.written = l'.file.length := by
  rcases h.frames with ⟨hf, -, hl⟩ | ⟨hf, -, hl⟩
  · rw [hl, hf, hw]
  · rw [hl, hf, hw, List.length_append]

/-- Once nothing waits, the file reaches to where the next frame was to land. -/
theorem Moved.written_of_idle (h : Moved l l') (hi : l'.pending = []) : l'.written = l.size := by
  rcases h.frames with ⟨-, hp, hl⟩ | ⟨-, -, hl⟩
  · rw [hl, size, ← hp, hi]
    rfl
  · exact hl

theorem length_resize (bs : List UInt8) (n : Nat) : (resize bs n).length = n := by
  rw [resize, List.length_append, List.length_take, List.length_replicate]
  omega

theorem cut_isPrefix (m : Medium) (h : n ≤ l.file.length) : (l.cut m n).file <+: l.file := by
  rw [cut]
  split
  · have hnone : n - l.file.length = 0 := Nat.sub_eq_zero_of_le h
    change resize l.file n <+: l.file
    rw [resize, hnone, List.replicate_zero, List.append_nil]
    exact List.take_prefix n l.file
  · exact List.prefix_rfl

theorem rollback_isPrefix (m : Medium) {start : Nat} (h : start < l.written → start ≤ l.file.length) :
    (l.rollback m start).file <+: l.file := by
  rw [rollback]
  split
  · rename_i hs
    exact cut_isPrefix m (h hs)
  · exact List.prefix_rfl

theorem Tracked.rollback (h : l.Tracked) (m : Medium) (start : Nat) : (l.rollback m start).Tracked := by
  rw [Log.rollback]
  split
  · rw [cut]
    split
    · exact .inr (length_resize l.file start).symm
    · exact .inl rfl
  · exact h

theorem Tried.tracked (h : Tried l l') (hw : l.written = l.file.length) : l'.Tracked :=
  h.elim (fun hm => .inr (hm.written_eq hw)) fun hs => .inl hs.poisoned

theorem rollback_queued (hw : l.written = l.file.length) (ht : Tried (l.queue e) l') (m : Medium) :
    (l'.rollback m l.size).file <+: l'.file := by
  refine rollback_isPrefix m fun hs => ?_
  rcases ht with hm | hs'
  · have hlength : l'.written = l'.file.length := hm.written_eq hw
    exact hlength ▸ Nat.le_of_lt hs
  · -- nothing was taken for written, so nothing is cut
    rw [hs'.written] at hs
    exact absurd hs (Nat.not_lt.mpr (Nat.le_add_right _ _))

/-- An append that succeeds says where its frame lands, behind all that was there before. -/
theorem append_lands (hw : l.written = l.file.length) (ha : l.append t.medium now e = (.ok n, l')) :
    n = (l.file ++ l.pending).length ∧ l'.file ++ l'.pending = l.file ++ l.pending ++ Frame.bytes e := by
  rcases append_cases ha with ⟨⟨g, hr⟩, -⟩ | ⟨-, -, hr, hs⟩ | ⟨-, -, g, l₁, hr, -⟩
  · cases hr
  · have hstream := (moved_of_settle_ok hs).stream
    refine ⟨?_, hstream.trans (List.append_assoc ..).symm⟩
    rw [Except.ok.inj hr, size, hw, List.length_append]
  · cases hr

theorem Tracked.append (h : l.Tracked) (t : Trouble) (now : Nat) (e : Entry) :
    (l.append t.medium now e).2.Tracked := by
  rcases h with hp | hw
  · obtain ⟨g, ha⟩ := append_of_poisoned hp t.medium now e
    rw [ha]
    exact .inl hp
  · have htried : Tried (l.queue e) _ := settle_tried t now hw
    cases ha : l.append t.medium now e with
    | mk r l' =>
      rcases append_cases ha with ⟨-, rfl⟩ | ⟨-, -, -, hs⟩ | ⟨-, -, g, l₁, -, hs, rfl⟩
      · exact .inr hw
      · rw [hs] at htried
        exact htried.tracked hw
      · rw [hs] at htried
        exact Tracked.rollback (htried.tracked hw) t.medium l.size

theorem Tracked.writePending (h : l.Tracked) (t : Trouble) : (l.writePending t.medium).2.Tracked :=
  h.elim (fun hp => .inl (poisoned_writePending t.medium hp)) fun hw => (writePending_tried t hw).tracked hw

theorem Tracked.sync (h : l.Tracked) (t : Trouble) (now : Nat) : (l.sync t.medium now).2.Tracked :=
  h.elim (fun hp => .inl (poisoned_sync t.medium now hp)) fun hw => (sync_tried t hw).tracked hw

theorem truncate_cases {r : Except Error Unit} (h : l.truncate m n = (r, l')) :
    (∃ g, l.flush m = (.error g, l')) ∨ ∃ l₁, l.flush m = (.ok (), l₁) ∧
      ((m.resizes l₁.file.length n = false ∧ l' = l₁) ∨
        (m.resizes l₁.file.length n = true ∧
          ((m.syncs = true ∧ l' = { l₁ with file := resize l₁.file n, written := n }) ∨
            (m.syncs = false ∧ l' = { l₁ with file := resize l₁.file n })))) := by
  rw [truncate] at h
  cases hf : l.flush m with
  | mk x l₁ =>
    rw [hf] at h
    cases x with
    | error g =>
      cases h
      exact .inl ⟨g, rfl⟩
    | ok u =>
      refine .inr ⟨l₁, rfl, ?_⟩
      cases hr : m.resizes l₁.file.length n with
      | false =>
        simp only [hr, Bool.false_eq_true, if_false] at h
        cases h
        exact .inl ⟨rfl, rfl⟩
      | true =>
        cases hs : m.syncs with
        | false =>
          simp only [hr, hs, Bool.false_eq_true, if_true, if_false] at h
          cases h
          exact .inr ⟨rfl, .inr ⟨rfl, rfl⟩⟩
        | true =>
          simp only [hr, hs, if_true] at h
          cases h
          exact .inr ⟨rfl, .inl ⟨rfl, rfl⟩⟩

theorem poisoned_truncate (m : Medium) (n : Nat) (hp : l.poisoned = true) : (l.truncate m n).2.poisoned = true := by
  have hflush : (l.flush m).2.poisoned = true := flush_log ▸ poisoned_writePending m hp
  cases h : l.truncate m n with
  | mk r l' =>
    rcases truncate_cases h with ⟨g, hf⟩ | ⟨l₁, hf, ⟨-, rfl⟩ | ⟨-, ⟨-, rfl⟩ | ⟨-, rfl⟩⟩⟩ <;>
      (rw [hf] at hflush; exact hflush)

theorem tracked_truncate_iff (hp : l.poisoned = false) (hw : l.written = l.file.length) (n : Nat) (t : Trouble) :
    (l.truncate t.medium n).2.Tracked ↔ ¬l.Slips n t := by
  cases h : l.truncate t.medium n with
  | mk r l' =>
    rcases truncate_cases h with ⟨g, hf⟩ | ⟨l₁, hf, hcases⟩
    · have htracked : (l.flush t.medium).2.Tracked := flush_log ▸ Tracked.writePending (.inr hw) t
      rw [hf] at htracked
      refine iff_of_true htracked fun hs => ?_
      have hflushed := hs.flushed
      rw [hf] at hflushed
      cases hflushed
    · obtain ⟨hm, hi⟩ := moved_of_flush_ok hf
      have hend : l₁.file.length = l.size := (hm.written_eq hw).symm.trans (hm.written_of_idle hi)
      rw [hend] at hcases
      rcases hcases with ⟨hr, rfl⟩ | ⟨hr, ⟨hs, rfl⟩ | ⟨hs, rfl⟩⟩
      · refine iff_of_true (.inr (hm.written_eq hw)) fun hslips => ?_
        exact Bool.false_ne_true (hr.symm.trans hslips.cuts)
      · refine iff_of_true (.inr (length_resize l₁.file n).symm) fun hslips => ?_
        exact Bool.false_ne_true (hslips.unsynced.symm.trans hs)
      · have husable : ¬l₁.poisoned = true := by rw [hm.usable, hp]; exact Bool.false_ne_true
        have htracked : Tracked { l₁ with file := resize l₁.file n } ↔ l.size = n := by
          rw [Tracked, length_resize, hm.written_of_idle hi]
          exact or_iff_right husable
        rw [htracked, eq_comm]
        exact ⟨fun hn hslips => hslips.moves hn, fun hn => by_contra fun hne => hn ⟨by rw [hf], hne, hr, hs⟩⟩

theorem Slips.leaves (hs : l.Slips n t) (hp : l.poisoned = false) (hw : l.written = l.file.length) :
    let l' := (l.truncate t.medium n).2
    l'.poisoned = false ∧ l'.pending = [] ∧ l'.file.length = n ∧ l'.written = l.size := by
  intro l'
  have hflushed := hs.flushed
  cases hf : l.flush t.medium with
  | mk x l₁ =>
    rw [hf] at hflushed
    obtain rfl : x = .ok () := hflushed
    obtain ⟨hm, hi⟩ := moved_of_flush_ok hf
    have hend : l₁.file.length = l.size := (hm.written_eq hw).symm.trans (hm.written_of_idle hi)
    have hl' : l' = { l₁ with file := resize l₁.file n } := by
      have hcut : t.medium.resizes l₁.file.length n = true := hend ▸ hs.cuts
      have hsyncs : t.medium.syncs = false := hs.unsynced
      simp only [l', truncate, hf, hcut, hsyncs, if_true, Bool.false_eq_true, if_false]
    rw [hl']
    exact ⟨hm.usable.trans hp, hi, length_resize l₁.file n, hm.written_of_idle hi⟩

namespace History

variable {h : History} {actions : List Action}

theorem call_tracked (hh : h.log.Tracked) (t : Trouble) (now : Nat) (c : Call) :
    (h.call t.medium now c).log.Tracked := by
  rcases call_cases t.medium now h c with ⟨e, rfl⟩ | ⟨l, hl, rfl | rfl | rfl⟩
  · have happend := Tracked.append hh t now e
    rw [call]
    split <;> (rename_i ha; rwa [ha] at happend)
  · exact hl ▸ hh
  · exact hl ▸ Tracked.writePending hh t
  · exact hl ▸ Tracked.sync hh t now

theorem truncate_tracked (hh : h.log.Tracked) (hs : h.log.poisoned = false → ¬h.log.Slips n t) :
    (h.act (.truncate n t)).log.Tracked := by
  cases hp : h.log.poisoned with
  | true => exact .inl (poisoned_truncate t.medium n hp)
  | false =>
    have hw := hh.resolve_left (by rw [hp]; exact Bool.false_ne_true)
    exact (tracked_truncate_iff hp hw n t).mpr (hs hp)

theorem actAll_tracked (hh : h.log.Tracked) (hu : h.Unslipped actions) : (h.actAll actions).log.Tracked := by
  induction actions generalizing h with
  | nil => exact hh
  | cons a actions ih =>
    cases a with
    | call e => exact ih (call_tracked hh e.trouble e.now e.call) hu
    | truncate n t => exact ih (truncate_tracked hh hu.1) hu.2

/-- A log is opened on any file, calls are made on it and it is truncated, while any write, sync or cut may fail, and
no truncation slips. As long as the log takes entries, it then knows where its file ends: an append that succeeds says
where its frame lands; what is cut from the file after a failed write or a failed append is its end, so that the file
never gets longer; and the next truncation loses the end of the file if it slips and only then. The file has the
length that was asked for then, but the next offset is the old one. -/
theorem file_end_is_known_unless_truncation_slips (durability : Durability) (base : List UInt8) (opened : Nat)
    (actions : List Action) (hu : (on durability base opened).Unslipped actions) :
    let l := ((on durability base opened).actAll actions).log
    l.poisoned = false →
      l.written = l.file.length ∧
      (∀ (t : Trouble) now e n l', l.append t.medium now e = (.ok n, l') →
        n = (l.file ++ l.pending).length ∧ l'.file ++ l'.pending = l.file ++ l.pending ++ Frame.bytes e) ∧
      (∀ (t : Trouble) pending k, let l' := { l with pending }.land t.medium k
        (l'.cut t.medium l.written).file <+: l'.file) ∧
      (∀ (t : Trouble) now e g l', (l.queue e).settle t.medium now = (.error g, l') →
        (l'.rollback t.medium l.size).file <+: l'.file) ∧
      ∀ n t, let l' := (l.truncate t.medium n).2
        (l'.poisoned = false ∧ l'.written ≠ l'.file.length ↔ l.Slips n t) ∧
        (l.Slips n t → l'.file.length = n ∧ l'.size = l.size) := by
  intro l hp
  have hw : l.written = l.file.length := by
    have htracked : l.Tracked := actAll_tracked (.inr rfl) hu
    exact htracked.resolve_left (by rw [hp]; exact Bool.false_ne_true)
  refine ⟨hw, fun t now e n l' ha => append_lands hw ha, fun t pending k => ?_, fun t now e g l' hs => ?_,
    fun n t => ⟨?_, fun hs => ?_⟩⟩
  · refine cut_isPrefix t.medium ?_
    change l.written ≤ (l.file ++ pending.take k).length
    rw [hw, List.length_append]
    exact Nat.le_add_right _ _
  · have htried : Tried (l.queue e) _ := settle_tried t now hw
    rw [hs] at htried
    exact rollback_queued hw htried t.medium
  · rw [← not_iff_not, ← tracked_truncate_iff hp hw n t, Tracked, not_and_or, Bool.not_eq_false, not_not]
  · obtain ⟨-, hi, hlength, hwritten⟩ := hs.leaves hp hw
    refine ⟨hlength, ?_⟩
    rw [size, hwritten, hi]
    rfl

open Spoiling (sound)
open Replay (tagOn)

namespace Slipping

def torn : Trouble := ⟨⟨fun _ _ => some 7, true⟩, fun _ _ => true⟩

def unsyncable : Trouble := ⟨⟨fun _ _ => none, false⟩, fun _ _ => true⟩

end Slipping

open Slipping

/-- A write fails after a part of it and is undone; then the file is cut inside a frame. -/
theorem file_end_is_known_after_cut :
    let actions : List Action :=
      [.call ⟨.append (tagOn 1 ""), 0, sound⟩, .call ⟨.flush, 0, torn⟩, .truncate 10 sound]
    let l := ((on (.batched 1000 10) [] 0).actAll actions).log
    (on (.batched 1000 10) [] 0).Unslipped actions ∧ l.poisoned = false ∧ l.written = l.file.length ∧
      l.file = (Frame.bytes (tagOn 1 "")).take 10 := by
  intro actions l
  have hu : (on (.batched 1000 10) [] 0).Unslipped actions :=
    ⟨fun _ hs => Bool.false_ne_true hs.unsynced.symm, trivial⟩
  have hp : l.poisoned = false := by decide +kernel
  obtain ⟨hw, -⟩ := file_end_is_known_unless_truncation_slips (.batched 1000 10) [] 0 actions hu hp
  exact ⟨hu, hp, hw, by decide +kernel⟩

/-- The file is emptied, but that cannot be synced. The next frame lands at its front, and the append says that it
lies behind the old frame; or, if that append fails, the file is filled up with zeros. -/
theorem slipped_truncation_lengthens_file :
    let h := (on (.batched 1000 10) [] 0).actAll [.call ⟨.append (tagOn 1 "abc"), 0, sound⟩, .truncate 0 unsyncable]
    let taken := h.log.append sound.medium 0 (tagOn 2 "")
    let refused := h.log.append unsyncable.medium 1000 (tagOn 2 "")
    (h.log.poisoned = false ∧ h.log.file = [] ∧ h.log.written = 28) ∧
    (taken.1 = .ok 28 ∧ (taken.2.flush sound.medium).2.file = Frame.bytes (tagOn 2 "")) ∧
    refused.1 = .error (.storage .unsynced) ∧ refused.2.file = Frame.bytes (tagOn 2 "") ++ [0, 0, 0] ∧
      refused.2.poisoned = false := by
  decide +kernel

end History
end Log
end FlightTrace
