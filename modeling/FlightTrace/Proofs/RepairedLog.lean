import FlightTrace.Proofs.CutLog
import FlightTrace.Proofs.LogOnto

/-! A log that is repaired after a crash and goes on. Its file may be any that is read, so the frames that are kept
need not be such as are written; they are read as before whatever is appended behind them. -/
namespace FlightTrace
namespace Log

/-- Entries are appended one by one, each at its time, while nothing fails. -/
def appendAll (l : Log) : List (Entry × Nat) → Except Error Log
  | [] => .ok l
  | (e, now) :: appended =>
    match l.append .sound now e with
    | (.ok _, l) => l.appendAll appended
    | (.error f, _) => .error f

/-- A log is opened on a file and read. Then, perhaps after it was repaired and took entries, a crash leaves a front
of the file that is no shorter than some length. -/
inductive Crash (least : Nat) (file : List UInt8) : List Entry → List UInt8 → Prop where
  | unrepaired {durability : Durability} {opened left : Nat} {r : Replay}
      (read : ((ofFile durability file opened).replay .sound).1 = .ok r) (leaves : least ≤ left) :
      Crash least file [] (file.take left)
  | repaired {durability : Durability} {opened left : Nat} {r : Replay} {l l' : Log}
      {appended : List (Entry × Nat)}
      (read : ((ofFile durability file opened).replay .sound).1 = .ok r)
      (cut : (ofFile durability file opened).truncate .sound r.soundLength = (.ok (), l))
      (taken : l.appendAll appended = .ok l') (leaves : least ≤ left) :
      Crash least file (appended.map Prod.fst) (l'.file.take left)

/-- What is left of a file after any number of such crashes, and of the entries that it took meanwhile. -/
inductive Survives (least : Nat) (file : List UInt8) : List UInt8 → List Entry → Prop where
  | intact : Survives least file file []
  | crash {before after : List UInt8} {kept es : List Entry} :
      Survives least file before kept → Crash least before es after →
      Survives least file after (Replay.within (after.length - least) (kept ++ es))

variable {l l' : Log} {es old : List Entry} {base : List UInt8} {appended : List (Entry × Nat)}

theorem appendAll_holds (hl : l.Holds es) (h : (l.onto base).appendAll appended = .ok l') :
    ∃ l₁ : Log, l' = l₁.onto base ∧ l₁.Holds (es ++ appended.map Prod.fst) := by
  induction appended generalizing l es with
  | nil =>
    cases h
    exact ⟨l, rfl, by simpa using hl⟩
  | cons p appended ih =>
    obtain ⟨e, now⟩ := p
    rw [appendAll] at h
    rcases (append_onto base .sound now l e).cases with
      ⟨n, _, l₁, ha, hb⟩ | ⟨_, _, l₁, ha, hb⟩
    · rw [hb] at h
      have hl₁ := (append_ok_holds ⟨fun _ _ => none, true⟩ now hl ha).1
      obtain ⟨l₂, rfl, hl₂⟩ := ih hl₁ h
      exact ⟨l₂, rfl, by simpa using hl₂⟩
    · rw [hb] at h
      cases h

theorem exists_appendAll (base : List UInt8) (hl : l.Holds es) (hfits : ∀ p ∈ appended, Frame.Fits p.1) :
    ∃ l', (l.onto base).appendAll appended = .ok l' := by
  induction appended generalizing l es with
  | nil => exact ⟨_, rfl⟩
  | cons p appended ih =>
    obtain ⟨e, now⟩ := p
    obtain ⟨he, hrest⟩ := List.forall_mem_cons.mp hfits
    obtain ⟨l₀, happend, -⟩ := append_sound now he hl.usable
    have hbehind := append_onto base .sound now l e
    rcases hbehind.cases with ⟨n, _, l₁, ha, hb⟩ | ⟨_, _, l₁, ha, -⟩
    · have hl₁ := (append_ok_holds ⟨fun _ _ => none, true⟩ now hl ha).1
      obtain ⟨l', hl'⟩ := ih hl₁ hrest
      exact ⟨l', by rw [appendAll, hb]; exact hl'⟩
    · cases happend.symm.trans ha

theorem Holds.flush_sound (hl : l.Holds es) :
    ∃ l', l.flush .sound = (.ok (), l') ∧ l'.file = Replay.frames es := by
  have hok := l.writePending_sound
  have hmoved : (l.writePending .sound).2.Holds es :=
    hl.moved (writePending_moved ⟨fun _ _ => none, true⟩ hl.written).1
  cases hw : l.writePending .sound with
  | mk x l' =>
    rw [hw] at hok hmoved
    obtain rfl : x = .ok () := hok
    have hfile := hmoved.stream
    rw [pending_of_writePending_ok hw, List.append_nil] at hfile
    exact ⟨l', by rw [flush, hw], hfile⟩

theorem replay_onto (hl : l.Holds es) (hbase : Replay.Framed base old) :
    ((l.onto base).replay .sound).1 = .ok ⟨old ++ es, (l.onto base).size, 0⟩ := by
  obtain ⟨l₁, hflush, hfile⟩ := hl.flush_sound
  have hread : Replay.ofBytes (base ++ Replay.frames es) = .ok ⟨old ++ es, (l.onto base).size, 0⟩ := by
    have hall := hbase.append (Replay.framed_frames hl.fits)
    have h := (Replay.ofBytes_framed_append hall Replay.not_starts_nil).1 (.inl (.inl rfl))
    rwa [List.append_nil, List.length_append, ← hl.size_eq, ← onto_size] at h
  rcases (flush_onto base .sound l).cases with
    ⟨_, _, l₂, ha, hb⟩ | ⟨_, _, l₂, ha, -⟩
  · obtain ⟨-, rfl⟩ := Prod.mk.inj (hflush.symm.trans ha)
    have hfound : (l₁.onto base).file = base ++ Replay.frames es := congrArg (base ++ ·) hfile
    rw [replay, replayFrom, hb]
    simp only [hfound, hread]
  · cases hflush.symm.trans ha

namespace Replay

open FlightTrace.Log.Frame

/-- A file that can be repaired: some frames, the frames of some entries behind them, and an end that is no frame. -/
structure Repairable (base : List UInt8) (kept : List Entry) (file : List UInt8) : Prop where
  fits : ∀ e ∈ kept, Fits e
  parted : ∃ rest, file = base ++ frames kept ++ rest ∧ ¬Starts rest

variable {kept as : List Entry} {file : List UInt8} {n : Nat}

theorem not_starts_take {rest : List UInt8} (h : ¬Starts rest) (n : Nat) : ¬Starts (rest.take n) := by
  rintro ⟨f, e, hv, hf⟩
  have htake : rest.take n <+: rest := List.take_prefix n rest
  exact h ⟨f, e, hv, hf.trans htake⟩

/-- A crash takes the last of the entries, or a part of the end behind them. -/
theorem Repairable.take (h : Repairable base kept file) (hn : base.length ≤ n) :
    Repairable base (within ((file.take n).length - base.length) kept) (file.take n) := by
  obtain ⟨rest, rfl, hs⟩ := h.parted
  have hcut : (base ++ frames kept ++ rest).take n = base ++ (frames kept ++ rest).take (n - base.length) := by
    rw [List.append_assoc, List.take_append, List.take_of_length_le hn]
  rw [hcut, List.length_append, Nat.add_sub_cancel_left]
  generalize n - base.length = left
  refine ⟨fun e he => h.fits e ((within_isPrefix _ kept).subset he), ?_⟩
  by_cases hleft : left ≤ (frames kept).length
  · obtain ⟨part, hruns, hpart⟩ := take_frames_within h.fits left
    rw [List.take_append_of_le_length hleft, List.length_take, Nat.min_eq_left hleft, hpart]
    exact ⟨part, (List.append_assoc ..).symm, not_starts_of_runsOut hruns⟩
  · have hall : (frames kept ++ rest).take left = frames kept ++ rest.take (left - (frames kept).length) := by
      rw [List.take_append, List.take_of_length_le (by omega)]
    rw [hall, within_of_length_le (by rw [List.length_append]; omega)]
    exact ⟨_, (List.append_assoc ..).symm, not_starts_take hs _⟩

theorem repairable_take (hes : ∀ e ∈ es, Fits e) (has : as <+: es) (hn : base.length ≤ n) :
    let left := (base ++ frames as).take n
    Repairable base (within (left.length - base.length) es) left := by
  intro left
  have hwritten : Repairable base as (base ++ frames as) :=
    ⟨fun e he => hes e (has.subset he), [], (List.append_nil _).symm, not_starts_nil⟩
  have hlength : left.length - base.length ≤ (frames as).length := by
    have hle : left.length ≤ (base ++ frames as).length := List.length_take_le' n _
    rw [List.length_append] at hle
    omega
  have hkept : within (left.length - base.length) es = within (left.length - base.length) as := by
    rw [← within_min has, Nat.min_eq_left hlength]
  exact hkept ▸ hwritten.take hn

theorem Repairable.read (h : Repairable base kept file) (hbase : Framed base old) {r : Replay}
    (hr : ofBytes file = .ok r) :
    r.entries = old ++ kept ∧
      ∃ rest, file = (base ++ frames kept) ++ rest ∧ r.soundLength = (base ++ frames kept).length := by
  obtain ⟨rest, rfl, hs⟩ := h.parted
  have ⟨hok, herror⟩ := ofBytes_framed_append (hbase.append (framed_frames h.fits)) hs
  by_cases hends : Ended rest ∨ Unreadable rest
  · rw [hok hends] at hr
    obtain rfl := Except.ok.inj hr
    exact ⟨rfl, rest, rfl, rfl⟩
  · obtain ⟨f, hf⟩ := herror hends
    cases hf.symm.trans hr

theorem exists_repairable {r : Replay} (hr : ofBytes file = .ok r) :
    ∃ base, Framed base r.entries ∧ r.soundLength = base.length ∧ Repairable base [] file := by
  have hdivided : ∀ ends : List UInt8 → Prop, (∀ rest, ends rest → ¬Starts rest) → Divides ends file r →
      ∃ base, Framed base r.entries ∧ r.soundLength = base.length ∧ Repairable base [] file := by
    rintro ends hends ⟨base, rest, rfl, hf, he, hsound, -⟩
    exact ⟨base, hf, hsound, fun e he => absurd he List.not_mem_nil, rest,
      by rw [frames_nil, List.append_nil], hends rest he⟩
  rcases ofBytes_eq_ok_iff.mp hr with h | h
  · exact hdivided Ended (fun _ he => not_starts_of_ends (.inl he)) h
  · exact hdivided Unreadable (fun _ hu => not_starts_of_ends (.inr hu)) h

end Replay

open Replay

variable {kept : List Entry} {file file' : List UInt8}

/-- A file that can be repaired is cut to its frames, and the log goes on behind them. -/
theorem truncate_repairable (h : Repairable base kept file) (hbase : Framed base old) {durability : Durability}
    {opened : Nat} {r : Replay} (hr : ((ofFile durability file opened).replay .sound).1 = .ok r) :
    r.entries = old ++ kept ∧ (ofFile durability file opened).truncate .sound r.soundLength =
      (.ok (), (History.start durability opened).log.onto (base ++ frames kept)) := by
  obtain ⟨hentries, rest, rfl, hsound⟩ := h.read hbase (replay_ofFile_eq_ok_iff.mp hr)
  exact ⟨hentries, by rw [hsound, truncate_sound, ofFile_eq_onto]; rfl⟩

theorem Crash.repairable (hcrash : Crash base.length file es file') (h : Repairable base kept file)
    (hbase : Framed base old) : Repairable base (within (file'.length - base.length) (kept ++ es)) file' := by
  cases hcrash with
  | unrepaired _ leaves => exact (List.append_nil kept).symm ▸ h.take leaves
  | @repaired durability opened left r l l' appended read cut taken leaves =>
    obtain ⟨-, hcut⟩ := truncate_repairable h hbase read
    obtain rfl := (Prod.mk.inj (hcut.symm.trans cut)).2
    obtain ⟨l₁, rfl, hl₁⟩ := appendAll_holds (History.start_holds durability opened) taken
    obtain ⟨as, bs, has, hfile, -⟩ := hl₁.parted
    have hwritten : kept ++ as <+: kept ++ appended.map Prod.fst := ⟨bs, by rw [List.append_assoc, ← has]; rfl⟩
    have hfits : ∀ e ∈ kept ++ appended.map Prod.fst, Frame.Fits e :=
      List.forall_mem_append.mpr ⟨h.fits, hl₁.fits⟩
    have hbytes : (l₁.onto (base ++ frames kept)).file = base ++ frames (kept ++ as) := by
      rw [onto, hfile, List.append_assoc, frames_append]
    rw [hbytes]
    exact repairable_take hfits hwritten leaves

theorem Survives.repairable {file₀ : List UInt8} (hlives : Survives base.length file₀ file kept)
    (hbase : Framed base old) (hfirst : Repairable base [] file₀) : Repairable base kept file := by
  induction hlives with
  | intact => exact hfirst
  | crash _ hcrash ih => exact hcrash.repairable ih hbase

/-- A file is read, and then there are any number of crashes that leave all that was read first, each after the log
was opened and read and perhaps repaired and appended to, in any mode. If the file can be read again, what is read
are the entries that were read first and those of the others that were left. The log is then repaired and takes any
entries that fit, and all of them are read behind the former, with nothing torn. -/
theorem repaired_log_goes_on {durability₀ : Durability} {file₀ : List UInt8} {opened₀ : Nat} {m₀ : Medium}
    {r₀ : Replay} (hread₀ : ((ofFile durability₀ file₀ opened₀).replay m₀).1 = .ok r₀)
    (hlives : Survives r₀.soundLength file₀ file kept) (durability : Durability) (opened : Nat) {r : Replay}
    (hread : ((ofFile durability file opened).replay .sound).1 = .ok r)
    (hfits : ∀ p ∈ appended, Frame.Fits p.1) :
    r.entries = r₀.entries ++ kept ∧ ∃ l l',
      (ofFile durability file opened).truncate .sound r.soundLength = (.ok (), l) ∧
      l.appendAll appended = .ok l' ∧
      (l'.replay .sound).1 = .ok ⟨r₀.entries ++ kept ++ appended.map Prod.fst, l'.size, 0⟩ := by
  obtain ⟨base, hbase, hsound, hfirst⟩ := exists_repairable (replay_ofFile_eq_ok_iff.mp hread₀)
  have hrepairable : Repairable base kept file := (hsound ▸ hlives).repairable hbase hfirst
  have hstart := History.start_holds durability opened
  obtain ⟨hentries, hcut⟩ := truncate_repairable hrepairable hbase hread
  obtain ⟨l', htaken⟩ := exists_appendAll (base ++ frames kept) hstart hfits
  obtain ⟨l₁, rfl, hl₁⟩ := appendAll_holds hstart htaken
  exact ⟨hentries, _, _, hcut, htaken, replay_onto hl₁ (hbase.append (framed_frames hrepairable.fits))⟩

/-! A file with one frame and a torn end takes two entries more. A crash leaves the second frame and a part of the
third. -/

namespace Mending

def torn (e : Entry) : List UInt8 := frames [e] ++ [9, 0, 0]

/-- Two frames of 25 bytes and a part of a third. -/
def shortened (es : List Entry) : List UInt8 := (frames es).take 60

def whole (es : List Entry) : Log := ⟨.batched 1000 2, frames es, [], 75, 0, 0, false⟩

theorem ofBytes_of_part {es : List Entry} {part : List UInt8} (hfits : ∀ e ∈ es, Frame.Fits e)
    (hruns : Frame.RunsOut part) (hnone : nextFrame? 0 part.tail = none) :
    ofBytes (frames es ++ part) = .ok ⟨es, (frames es).length, part.length⟩ :=
  (ofBytes_framed_append (framed_frames hfits) (Frame.not_starts_of_runsOut hruns)).1
    ((ends_iff_of_runsOut hruns).mpr (nextFrame?_tail_eq_none_iff.mp hnone))

theorem ofBytes_torn {e : Entry} (hfits : Frame.Fits e) :
    ofBytes (torn e) = .ok ⟨[e], (frames [e]).length, 3⟩ :=
  ofBytes_of_part (List.forall_mem_singleton.mpr hfits) (.inl (by decide)) (by decide +kernel)

theorem ofBytes_shortened :
    ofBytes (shortened [tagOn 1 "", tagOn 2 "", tagOn 3 ""]) = .ok ⟨[tagOn 1 "", tagOn 2 ""], 50, 10⟩ := by
  have hruns : Frame.RunsOut ((Frame.bytes (tagOn 3 "")).take 10) :=
    Frame.decode_eq_incomplete_iff.mp (Frame.decode_verified_take (Frame.verified_bytes (by decide)) (by decide))
  have hparts : shortened [tagOn 1 "", tagOn 2 "", tagOn 3 ""] =
      frames [tagOn 1 "", tagOn 2 ""] ++ (Frame.bytes (tagOn 3 "")).take 10 := by
    decide +kernel
  have hlength : (frames [tagOn 1 "", tagOn 2 ""]).length = 50 := by decide
  have hpart : ((Frame.bytes (tagOn 3 "")).take 10).length = 10 := by decide
  rw [hparts, ofBytes_of_part (by decide) hruns (by decide +kernel), hlength, hpart]

theorem survives_shortened :
    Survives 25 (torn (tagOn 1 "")) (shortened [tagOn 1 "", tagOn 2 "", tagOn 3 ""]) [tagOn 2 ""] := by
  have hread : ((ofFile (.batched 1000 2) (torn (tagOn 1 "")) 0).replay .sound).1 = .ok ⟨[tagOn 1 ""], 25, 3⟩ :=
    replay_ofFile_eq_ok_iff.mpr (ofBytes_torn (by decide))
  have hcut : (ofFile (.batched 1000 2) (torn (tagOn 1 "")) 0).truncate .sound 25 =
      (.ok (), ofFile (.batched 1000 2) (frames [tagOn 1 ""]) 0) := truncate_sound _ _ _ _
  have htaken : (ofFile (.batched 1000 2) (frames [tagOn 1 ""]) 0).appendAll
      [(tagOn 2 "", 0), (tagOn 3 "", 0)] = .ok (whole [tagOn 1 "", tagOn 2 "", tagOn 3 ""]) := by decide +kernel
  have hcrash : Crash 25 (torn (tagOn 1 "")) [tagOn 2 "", tagOn 3 ""]
      (shortened [tagOn 1 "", tagOn 2 "", tagOn 3 ""]) :=
    .repaired hread hcut htaken (by decide : 25 ≤ 60)
  have hkept : within ((shortened [tagOn 1 "", tagOn 2 "", tagOn 3 ""]).length - 25) [tagOn 2 "", tagOn 3 ""] =
      [tagOn 2 ""] := by decide +kernel
  exact hkept ▸ Survives.crash .intact hcrash

end Mending

open Mending

theorem mended_log_goes_on :
    let file := torn (tagOn 1 "")
    let file' := shortened [tagOn 1 "", tagOn 2 "", tagOn 3 ""]
    ((ofFile .strict file 0).replay .sound).1 = .ok ⟨[tagOn 1 ""], 25, 3⟩ ∧ Survives 25 file file' [tagOn 2 ""] ∧
      ((ofFile .strict file' 0).replay .sound).1 = .ok ⟨[tagOn 1 "", tagOn 2 ""], 50, 10⟩ ∧
      (∀ p ∈ [(tagOn 4 "", 0)], Frame.Fits p.1) ∧
      ∃ l l', (ofFile .strict file' 0).truncate .sound 50 = (.ok (), l) ∧ l.appendAll [(tagOn 4 "", 0)] = .ok l' ∧
        (l'.replay .sound).1 = .ok ⟨[tagOn 1 "", tagOn 2 "", tagOn 4 ""], l'.size, 0⟩ := by
  intro file file'
  have hread₀ : ((ofFile .strict file 0).replay .sound).1 = .ok ⟨[tagOn 1 ""], 25, 3⟩ :=
    replay_ofFile_eq_ok_iff.mpr (ofBytes_torn (by decide))
  have hread : ((ofFile .strict file' 0).replay .sound).1 = .ok ⟨[tagOn 1 "", tagOn 2 ""], 50, 10⟩ :=
    replay_ofFile_eq_ok_iff.mpr ofBytes_shortened
  have hfits : ∀ p ∈ [(tagOn 4 "", 0)], Frame.Fits p.1 := by decide
  exact ⟨hread₀, survives_shortened, hread, hfits, (repaired_log_goes_on hread₀ survives_shortened .strict 0 hread hfits).2⟩

end Log
end FlightTrace
