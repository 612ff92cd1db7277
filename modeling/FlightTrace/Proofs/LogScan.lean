import FlightTrace.Log
import FlightTrace.Proofs.FrameFormat

/-! One step of reading a log: a verified frame is taken off the front, or reading ends there. What a step
does is said once for each of the three answers of decoding. -/
namespace FlightTrace
namespace Log
namespace Replay

open FlightTrace.Log.Frame

def cons (e : Entry) (r : Replay) : Replay := { r with entries := e :: r.entries }

variable {offset : Nat} {bs : List UInt8}

@[simp] theorem scan_nil (offset : Nat) : scan offset [] = .ok (torn offset []) := by
  rw [scan, if_pos rfl]

theorem ne_nil_of_decode (h : decode bs ≠ .ok .incomplete) : bs ≠ [] := by
  rintro rfl
  exact h rfl

/-- One step, without the evidence by which reading ends. -/
theorem scan_step (hne : bs ≠ []) :
    scan offset bs =
      match decode bs with
      | .ok (.whole e n) => (scan (offset + n) (bs.drop n)).map (cons e)
      | .ok .incomplete =>
        match nextFrame? (offset + 1) bs.tail with
        | some next => .error (.overrun offset next)
        | none => .ok (torn offset bs)
      | .error f =>
        if declaredSize? bs = some bs.length then .ok (torn offset bs) else .error (.frame offset f) := by
  rw [scan, if_neg hne]
  split
  all_goals
    rename_i h
    simp only [h]
  all_goals rfl

theorem scan_whole {e : Entry} {n : Nat} (h : decode bs = .ok (.whole e n)) :
    scan offset bs = (scan (offset + n) (bs.drop n)).map (cons e) := by
  rw [scan_step (ne_nil_of_decode (by simp [h])), h]

theorem scan_incomplete (hne : bs ≠ []) (h : decode bs = .ok .incomplete) :
    scan offset bs =
      match nextFrame? (offset + 1) bs.tail with
      | some next => .error (.overrun offset next)
      | none => .ok (torn offset bs) := by
  rw [scan_step hne, h]

theorem scan_refused {f : FrameFault} (h : decode bs = .error f) :
    scan offset bs =
      if declaredSize? bs = some bs.length then .ok (torn offset bs) else .error (.frame offset f) := by
  rw [scan_step (ne_nil_of_decode (by simp [h])), h]

theorem scan_verified_append {f : List UInt8} {e : Entry} (h : Verified f e) (rest : List UInt8) :
    scan offset (f ++ rest) = (scan (offset + f.length) rest).map (cons e) := by
  rw [scan_whole (decode_verified_append h rest), List.drop_left]

theorem not_starts_nil : ¬Starts [] := by
  rw [starts_iff]
  rintro ⟨e, n, h⟩
  cases h

/-- Verified frames, one after the other, and their entries. -/
inductive Framed : List UInt8 → List Entry → Prop where
  | nil : Framed [] []
  | cons {f bs : List UInt8} {e : Entry} {es : List Entry} :
      Verified f e → Framed bs es → Framed (f ++ bs) (e :: es)

theorem scan_framed_append {es : List Entry} {sound : List UInt8} (h : Framed sound es) (offset : Nat)
    (rest : List UInt8) :
    scan offset (sound ++ rest) = (scan (offset + sound.length) rest).map
      fun r => { r with entries := es ++ r.entries } := by
  induction h generalizing offset with
  | nil => cases hr : scan offset rest <;> simp [hr, Except.map]
  | @cons f bs e es hv _ ih =>
    rw [List.append_assoc, scan_verified_append hv, ih, List.length_append, Nat.add_assoc]
    cases scan (offset + (f.length + bs.length)) rest <;> rfl

theorem entries_of_decode {es : List Entry} {sound : List UInt8} (h : Framed sound es) {e : Entry} {n : Nat}
    (hdecode : decode bs = .ok (.whole e n)) {r : Replay} (hr : ofBytes (sound ++ bs) = .ok r) :
    es ++ [e] <+: r.entries := by
  rw [ofBytes, scan_framed_append h, scan_whole hdecode] at hr
  cases hrest : scan (0 + sound.length + n) (bs.drop n) with
  | error f =>
    rw [hrest] at hr
    cases hr
  | ok last =>
    rw [hrest] at hr
    obtain rfl := Except.ok.inj hr
    exact ⟨last.entries, (List.append_cons es e last.entries).symm⟩

theorem nextFrame?_eq_none_iff : nextFrame? offset bs = none ↔ ∀ i, ¬Starts (bs.drop i) := by
  induction bs generalizing offset with
  | nil => simp [nextFrame?, not_starts_nil]
  | cons b bs ih =>
    have hall : (∀ i, ¬Starts ((b :: bs).drop i)) ↔ ¬Starts (b :: bs) ∧ ∀ i, ¬Starts (bs.drop i) := by
      constructor
      · exact fun h => ⟨h 0, fun i => h (i + 1)⟩
      · rintro ⟨h₀, h⟩ i
        cases i with
        | zero => exact h₀
        | succ i => exact h i
    have hbehind : nextFrame? (offset + 1) bs = none ↔ ∀ i, ¬Starts (bs.drop i) := ih
    rw [hall, ← hbehind, starts_iff, nextFrame?]
    cases decode (b :: bs) with
    | error f => simp
    | ok d => cases d <;> simp

theorem drop_tail (bs : List UInt8) (i : Nat) : bs.tail.drop i = bs.drop (i + 1) := by
  rw [← List.drop_one, List.drop_drop, Nat.add_comm]

theorem nextFrame?_tail_eq_none_iff :
    nextFrame? offset bs.tail = none ↔ ∀ i, 0 < i → ¬Starts (bs.drop i) := by
  simp only [nextFrame?_eq_none_iff, drop_tail]
  constructor
  · intro h i hi
    have := h (i - 1)
    rwa [Nat.sub_add_cancel hi] at this
  · exact fun h i => h (i + 1) (Nat.succ_pos i)

/-- Reading ends at a frame that runs past the end, unless a verified frame starts behind its first byte. -/
theorem scan_runsOut (hne : bs ≠ []) (h : RunsOut bs) (offset : Nat) :
    ((∀ i, 0 < i → ¬Starts (bs.drop i)) → scan offset bs = .ok (torn offset bs)) ∧
    ((∃ i, 0 < i ∧ Starts (bs.drop i)) → ∃ next, scan offset bs = .error (.overrun offset next)) := by
  have hnext : nextFrame? (offset + 1) bs.tail = none ↔ ∀ i, 0 < i → ¬Starts (bs.drop i) :=
    nextFrame?_tail_eq_none_iff
  rw [scan_incomplete hne (decode_eq_incomplete_iff.mpr h)]
  constructor
  · intro hs
    rw [hnext.mpr hs]
  · rintro ⟨i, hi, hs⟩
    cases hfound : nextFrame? (offset + 1) bs.tail with
    | none => exact absurd hs (hnext.mp hfound i hi)
    | some next => exact ⟨next, rfl⟩

end Replay

/-- A log on a file reads what the file holds, whatever the medium does meanwhile. -/
theorem replay_ofFile (durability : Durability) (file : List UInt8) (now : Nat) (m : Medium) :
    ((ofFile durability file now).replay m).1 =
      match Replay.ofBytes file with
      | .ok r => .ok r
      | .error f => .error (.corruption f) := by
  have hflush : (ofFile durability file now).flush m = (.ok (), ofFile durability file now) := rfl
  rw [replay, replayFrom, hflush]
  simp only [ofFile]
  cases Replay.ofBytes file <;> rfl

variable {durability : Durability} {file : List UInt8} {now : Nat} {m : Medium}

theorem replay_ofFile_eq_ok_iff {r : Replay} :
    ((ofFile durability file now).replay m).1 = .ok r ↔ Replay.ofBytes file = .ok r := by
  rw [replay_ofFile]
  cases Replay.ofBytes file <;> simp

theorem replay_ofFile_corrupt_iff :
    (∃ f, ((ofFile durability file now).replay m).1 = .error (.corruption f)) ↔
      ∃ f, Replay.ofBytes file = .error f := by
  rw [replay_ofFile]
  cases Replay.ofBytes file <;> simp

end Log
end FlightTrace
