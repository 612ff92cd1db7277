import FlightTrace.Log
import FlightTrace.Proofs.Codec

/-! What a log holds after any calls and any failures of its file. The file and the waiting frames together
are the frames of the entries that were acknowledged, in their order; a call moves frames to the file or
leaves them waiting, and an append that fails takes back exactly what it added. -/
namespace FlightTrace
namespace Log

/-- How a file answers one call. A write may fail after any part of it has landed, and syncing may fail;
cutting the file always succeeds. -/
structure Faults where
  landed? : Nat → Nat → Option Nat
  syncs : Bool

def Faults.medium (f : Faults) : Medium where
  landed? := f.landed?
  syncs := f.syncs

/-- Nothing fails. -/
def Faults.clear : Faults := ⟨fun _ _ => none, true⟩

inductive Call where
  | append (e : Entry)
  | flush
  | fsync
  | syncIfOverdue
  | replay

structure Step where
  call : Call
  now : Nat
  faults : Faults

structure History where
  log : Log
  acknowledged : List Entry

namespace History

def start (durability : Durability) (now : Nat) : History := ⟨.ofFile durability [] now, []⟩

def step (h : History) (s : Step) : History :=
  match s.call with
  | .append e =>
    match h.log.append s.faults.medium s.now e with
    | (.ok _, l) => ⟨l, h.acknowledged ++ [e]⟩
    | (.error _, l) => ⟨l, h.acknowledged⟩
  | .flush => ⟨(h.log.flush s.faults.medium).2, h.acknowledged⟩
  | .fsync => ⟨(h.log.fsync s.faults.medium s.now).2, h.acknowledged⟩
  | .syncIfOverdue => ⟨(h.log.syncIfOverdue s.faults.medium s.now).2, h.acknowledged⟩
  | .replay => ⟨(h.log.replay s.faults.medium).2, h.acknowledged⟩

def run (h : History) (steps : List Step) : History := steps.foldl step h

end History

/-- A log whose file and waiting frames are the frames of some entries, with no frame in two parts. -/
structure Holds (l : Log) (es : List Entry) : Prop where
  fits : ∀ e ∈ es, Frame.Fits e
  parted : ∃ as bs, es = as ++ bs ∧ l.file = Replay.frames as ∧ l.pending = Replay.frames bs
  written : l.written = l.file.length
  usable : l.poisoned = false

/-- What becomes of the frames of a log in a call: nothing, or those that wait go to the file. -/
structure Moved (l l' : Log) : Prop where
  usable : l'.poisoned = l.poisoned
  frames : (l'.file = l.file ∧ l'.pending = l.pending ∧ l'.written = l.written) ∨
    (l'.file = l.file ++ l.pending ∧ l'.pending = [] ∧ l'.written = l.written + l.pending.length)

theorem Moved.refl (l : Log) : Moved l l := ⟨rfl, .inl ⟨rfl, rfl, rfl⟩⟩

variable {l l' : Log} {es : List Entry} (f : Faults) (now : Nat)

theorem Holds.stream (h : l.Holds es) : l.file ++ l.pending = Replay.frames es := by
  obtain ⟨as, bs, rfl, ha, hb⟩ := h.parted
  rw [ha, hb, Replay.frames_append]

theorem Holds.size_eq (h : l.Holds es) : l.size = (Replay.frames es).length := by
  rw [← h.stream, size, h.written, List.length_append]

theorem Holds.moved (h : l.Holds es) (hm : Moved l l') : l'.Holds es := by
  obtain ⟨as, bs, hes, ha, hb⟩ := h.parted
  rcases hm.frames with ⟨hf, hp, hw⟩ | ⟨hf, hp, hw⟩
  · exact ⟨h.fits, ⟨as, bs, hes, by rw [hf, ha], by rw [hp, hb]⟩, by rw [hw, hf, h.written],
      by rw [hm.usable, h.usable]⟩
  · refine ⟨h.fits, ⟨es, [], by simp, by rw [hf, h.stream], by rw [hp]; rfl⟩, ?_,
      by rw [hm.usable, h.usable]⟩
    rw [hw, hf, h.written, List.length_append]

theorem resize_append_length (bs cs : List UInt8) : resize (bs ++ cs) bs.length = bs := by
  simp [resize]

theorem writePending_moved (hw : l.written = l.file.length) :
    Moved l (l.writePending f.medium).2 ∧
      ((l.writePending f.medium).1 = .ok () → (l.writePending f.medium).2.pending = []) := by
  unfold writePending
  by_cases hp : l.pending = []
  · rw [if_pos hp]
    exact ⟨.refl l, fun _ => hp⟩
  · rw [if_neg hp]
    cases hland : f.landed? l.file.length l.pending.length with
    | none =>
      simp only [Faults.medium, hland, if_true, List.take_length]
      exact ⟨⟨rfl, .inr ⟨rfl, rfl, rfl⟩⟩, fun _ => trivial⟩
    | some n =>
      simp only [Faults.medium, hland, if_true, cut, hw, resize_append_length]
      exact ⟨⟨rfl, .inl ⟨rfl, rfl, hw.symm⟩⟩, fun he => by simp at he⟩

theorem sync_moved (hw : l.written = l.file.length) : Moved l (l.sync f.medium now).2 := by
  have ⟨hm, _⟩ := writePending_moved f hw
  unfold sync
  split
  · rename_i e l₁ he
    rwa [he] at hm
  · rename_i l₁ he
    rw [he] at hm
    split
    · exact ⟨hm.usable, hm.frames⟩
    · exact hm

theorem settle_moved (hw : l.written = l.file.length) : Moved l (l.settle f.medium now).2 := by
  unfold settle
  split
  · exact sync_moved f now hw
  · split
    · exact sync_moved f now hw
    · split
      · exact (writePending_moved f hw).1
      · exact .refl l

theorem flush_moved (hw : l.written = l.file.length) : Moved l (l.flush f.medium).2 := by
  have ⟨hm, _⟩ := writePending_moved f hw
  unfold flush
  split <;> (rename_i he; rwa [he] at hm)

theorem fsync_moved (hw : l.written = l.file.length) : Moved l (l.fsync f.medium now).2 := by
  have hm := sync_moved f now hw
  unfold fsync
  split <;> (rename_i he; rwa [he] at hm)

theorem syncIfOverdue_moved (hw : l.written = l.file.length) :
    Moved l (l.syncIfOverdue f.medium now).2 := by
  have hm := fsync_moved f now hw
  unfold syncIfOverdue
  split
  · exact .refl l
  · split
    · exact .refl l
    · split <;> (rename_i he; rwa [he] at hm)

theorem replay_moved (hw : l.written = l.file.length) : Moved l (l.replay f.medium).2 := by
  have hm := flush_moved f hw
  unfold replay replayFrom
  split
  · rename_i he
    rwa [he] at hm
  · rename_i he
    rw [he] at hm
    simp only
    split <;> exact hm

/-- Once the waiting frames are written, all acknowledged entries are read from the file. -/
theorem Holds.replay_eq (h : l.Holds es) (hok : (l.flush f.medium).1 = .ok ()) :
    (l.replay f.medium).1 = .ok ⟨es, (Replay.frames es).length, 0⟩ := by
  have hm := h.moved (flush_moved f h.written)
  have hpending : (l.flush f.medium).2.pending = [] := by
    have hp := (writePending_moved f h.written).2
    unfold flush at hok ⊢
    split
    · rename_i l₁ he
      rw [he] at hp
      exact hp rfl
    · rename_i e l₁ he
      rw [he] at hok
      exact absurd hok (by simp)
  have hfile := hm.stream
  rw [hpending, List.append_nil] at hfile
  unfold replay replayFrom
  generalize l.flush f.medium = x at hok hfile
  obtain ⟨r, l₁⟩ := x
  simp only at hok hfile
  subst hok
  simp only [hfile, Replay.ofBytes_frames h.fits]

def queue (e : Entry) (l : Log) : Log :=
  { l with pending := l.pending ++ Frame.bytes e, unsynced := l.unsynced + 1 }

/-- An append refuses the entry, or queues its frame and settles, and takes the frame out again if that
fails. -/
theorem append_cases {now : Nat} {m : Medium} {e : Entry} {r : Except Error Nat} (h : l.append m now e = (r, l')) :
    ((∃ g, r = .error g) ∧ l' = l) ∨
    (Frame.Fits e ∧ l.poisoned = false ∧ r = .ok l.size ∧ (l.queue e).settle m now = (.ok (), l')) ∨
    (Frame.Fits e ∧ l.poisoned = false ∧ ∃ g l₁, r = .error (.storage g) ∧
      (l.queue e).settle m now = (.error g, l₁) ∧ l' = l₁.rollback m l.size) := by
  unfold append at h
  cases he : Frame.encode e with
  | error g =>
    rw [he] at h
    obtain ⟨rfl, rfl⟩ := Prod.mk.inj h
    exact .inl ⟨⟨_, rfl⟩, rfl⟩
  | ok frame =>
    obtain ⟨hfits, rfl⟩ := Frame.encode_eq_ok_iff.mp he
    rw [he] at h
    cases hp : l.poisoned with
    | true =>
      simp only [hp, if_true] at h
      obtain ⟨rfl, rfl⟩ := Prod.mk.inj h
      exact .inl ⟨⟨_, rfl⟩, rfl⟩
    | false =>
      simp only [hp, Bool.false_eq_true, if_false] at h
      have hq : { l with pending := l.pending ++ Frame.bytes e, unsynced := l.unsynced + 1 } =
        l.queue e := rfl
      cases hs : (l.queue e).settle m now with
      | mk x l₁ =>
        rw [← hp, hq, hs] at h
        cases x with
        | ok u =>
          obtain ⟨rfl, rfl⟩ := Prod.mk.inj h
          exact .inr (.inl ⟨hfits, rfl, rfl, rfl⟩)
        | error g =>
          obtain ⟨rfl, rfl⟩ := Prod.mk.inj h
          exact .inr (.inr ⟨hfits, rfl, g, l₁, rfl, rfl, rfl⟩)

theorem bytes_pos (e : Entry) : 0 < (Frame.bytes e).length := by
  simp only [Frame.length_bytes]
  omega

theorem queue_holds (h : l.Holds es) {e : Entry} (he : Frame.Fits e) :
    (l.queue e).Holds (es ++ [e]) := by
  obtain ⟨as, bs, hes, ha, hb⟩ := h.parted
  refine ⟨?_, ⟨as, bs ++ [e], by rw [hes, List.append_assoc], ha, by simp [queue, hb]⟩, h.written,
    h.usable⟩
  intro g hg
  rcases List.mem_append.mp hg with hg | hg
  · exact h.fits g hg
  · rwa [List.mem_singleton.mp hg]

/-- Taking a frame out again leaves what was there before it, whether the frame has gone to the file behind
others or still waits. -/
theorem rollback_holds (h : l.Holds es) {e : Entry} (hm : Moved (l.queue e) l') :
    (l'.rollback f.medium l.size).Holds es := by
  have hpos := bytes_pos e
  obtain ⟨as, bs, hes, ha, hb⟩ := h.parted
  have husable : l'.poisoned = false := by rw [hm.usable]; exact h.usable
  unfold rollback
  rcases hm.frames with ⟨hf, hp, hw⟩ | ⟨hf, hp, hw⟩
  · -- the frame still waits
    simp only [queue] at hf hp hw
    have hlt : ¬l.size < l'.written := by
      rw [hw, size]
      omega
    have htake : (l.pending ++ Frame.bytes e).take (l.size - l'.written) = l.pending := by
      rw [hw, size, Nat.add_sub_cancel_left]
      exact List.take_left
    simp only [hlt, if_false, hp, htake]
    exact ⟨h.fits, ⟨as, bs, hes, by rw [hf, ha], hb⟩, by rw [hw, hf, h.written], husable⟩
  · -- the frame is in the file, behind all that waited before it
    simp only [queue] at hf hp hw
    have hlt : l.size < l'.written := by
      rw [hw, size, List.length_append]
      omega
    have hfile : resize l'.file l.size = Replay.frames es := by
      rw [hf, h.size_eq, ← List.append_assoc, h.stream]
      exact resize_append_length _ _
    simp only [hlt, if_true, cut, Faults.medium, hfile]
    exact ⟨h.fits, ⟨es, [], by simp, rfl, by rw [hp]; rfl⟩, h.size_eq, husable⟩

theorem append_ok_holds (h : l.Holds es) {e : Entry} {n : Nat}
    (ha : l.append f.medium now e = (.ok n, l')) : l'.Holds (es ++ [e]) ∧ n = l.size := by
  rcases append_cases ha with ⟨⟨g, hr⟩, -⟩ | ⟨hfits, -, hr, hs⟩ | ⟨-, -, g, l₁, hr, -, -⟩
  · exact absurd hr (by simp)
  · have hm := settle_moved f now (queue_holds h hfits).written
    rw [hs] at hm
    exact ⟨(queue_holds h hfits).moved hm, Except.ok.inj hr⟩
  · exact absurd hr (by simp)

theorem append_error_holds (h : l.Holds es) {e : Entry} {g : Error}
    (ha : l.append f.medium now e = (.error g, l')) : l'.Holds es := by
  rcases append_cases ha with ⟨-, rfl⟩ | ⟨-, -, hr, -⟩ | ⟨hfits, -, g, l₁, -, hs, rfl⟩
  · exact h
  · exact absurd hr (by simp)
  · have hm := settle_moved f now (queue_holds h hfits).written
    rw [hs] at hm
    exact rollback_holds f h hm

namespace History

theorem start_holds (durability : Durability) (now : Nat) :
    (start durability now).log.Holds (start durability now).acknowledged :=
  ⟨by simp [start], ⟨[], [], rfl, rfl, rfl⟩, rfl, rfl⟩

theorem step_holds {h : History} (hh : h.log.Holds h.acknowledged) (s : Step) :
    (h.step s).log.Holds (h.step s).acknowledged := by
  unfold step
  cases hc : s.call with
  | append e =>
    simp only
    split
    · rename_i ha
      exact (append_ok_holds s.faults s.now hh ha).1
    · rename_i ha
      exact append_error_holds s.faults s.now hh ha
  | flush => exact hh.moved (flush_moved s.faults hh.written)
  | fsync => exact hh.moved (fsync_moved s.faults s.now hh.written)
  | syncIfOverdue => exact hh.moved (syncIfOverdue_moved s.faults s.now hh.written)
  | replay => exact hh.moved (replay_moved s.faults hh.written)

theorem run_holds {h : History} (hh : h.log.Holds h.acknowledged) (steps : List Step) :
    (h.run steps).log.Holds (h.run steps).acknowledged := by
  induction steps generalizing h with
  | nil => exact hh
  | cons s steps ih => exact ih (step_holds hh s)

/-- Whatever calls are made on a log that was opened on an empty file, and whatever fails meanwhile, it
holds exactly the acknowledged entries. The next append gives the place of its frame, and the next replay
that can write the waiting frames gives all of the entries. -/
theorem run_holds_acknowledged (durability : Durability) (opened : Nat) (steps : List Step) :
    let h := (start durability opened).run steps
    h.log.file ++ h.log.pending = Replay.frames h.acknowledged ∧
    (∃ as bs, h.acknowledged = as ++ bs ∧ h.log.file = Replay.frames as ∧
      h.log.pending = Replay.frames bs) ∧
    h.log.file.length = h.log.written ∧
    (∀ (f : Faults) now e n l, h.log.append f.medium now e = (.ok n, l) →
      n = h.log.size ∧ n = (Replay.frames h.acknowledged).length ∧
      l.file ++ l.pending = Replay.frames h.acknowledged ++ Frame.bytes e) ∧
    (∀ f : Faults, (h.log.flush f.medium).1 = .ok () →
      (h.log.replay f.medium).1 =
        .ok ⟨h.acknowledged, (Replay.frames h.acknowledged).length, 0⟩) := by
  intro h
  have hh : h.log.Holds h.acknowledged := run_holds (start_holds durability opened) steps
  refine ⟨hh.stream, hh.parted, hh.written.symm, ?_, fun f hok => hh.replay_eq f hok⟩
  intro f now e n l ha
  obtain ⟨hl, hn⟩ := append_ok_holds f now hh ha
  refine ⟨hn, hn.trans hh.size_eq, ?_⟩
  rw [hl.stream, Replay.frames_append, Replay.frames_singleton]

end History
end Log
end FlightTrace
