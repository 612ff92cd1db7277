import FlightTrace.Proofs.Codec
import FlightTrace.Proofs.LogGrammar

/-! Damage to a log of whole frames. A log that is cut short is read up to the frame that was cut, unless the
part of it that is left holds a verified frame. A log in which the length of a frame was overwritten before
its last frame is corrupt, unless the other length ends exactly at the end of the log or fits by chance. -/
namespace FlightTrace
namespace Log

namespace Frame

theorem bytes_eq (e : Entry) : bytes e = Binary.natural 4 (bodySize e) ++
    (tag e :: e.bytes ++ Binary.natural 4 (Crc32.checksum (tag e :: e.bytes))) := by
  simp [bytes]

theorem take_bytes (e : Entry) : (bytes e).take 4 = Binary.natural 4 (bodySize e) := by
  rw [bytes_eq]
  exact List.take_left' (Binary.length_natural 4 (bodySize e))

theorem drop_bytes (e : Entry) :
    (bytes e).drop 4 = tag e :: e.bytes ++ Binary.natural 4 (Crc32.checksum (tag e :: e.bytes)) := by
  rw [bytes_eq]
  exact List.drop_left' (Binary.length_natural 4 (bodySize e))

/-- A frame with another length in place of its own is only verified if the length is no shorter, and then it is
decoded to the entry that it held before: its payload begins with that entry. -/
theorem decode_of_starts {e : Entry} (he : Fits e) {w rest : List UInt8} (hw : w.length = 4)
    (h : Starts (w ++ (bytes e).drop 4 ++ rest)) :
    bodySize e ≤ Binary.value w ∧
      decode (w ++ (bytes e).drop 4 ++ rest) = .ok (.whole e (4 + Binary.value w)) := by
  obtain ⟨f, x, hv, more, hmore⟩ := h
  have hlen : f.length = 4 + Binary.value w := by
    have hd := declaredSize?_verified_append hv more
    rw [hmore, List.append_assoc, declaredSize?_eq w _ hw] at hd
    exact (Option.some.inj hd).symm
  rw [← hmore, decode_verified_append hv, hlen]
  obtain ⟨payload, hread, -, rfl⟩ := hv
  simp only [drop_bytes, List.append_assoc, List.cons_append] at hmore
  obtain ⟨-, hbody⟩ := List.append_inj hmore (by rw [hw, Binary.length_natural])
  obtain ⟨hle, rfl⟩ := Entry.eq_of_ofBytes?_of_append_eq he.size_lt hread (List.cons.inj hbody).2
  simp only [List.length_append, Binary.length_natural, List.length_cons] at hlen
  exact ⟨by unfold bodySize; omega, rfl⟩

end Frame

namespace Replay

open FlightTrace.Log.Frame

def tagOn (address : Fin 0x1000000) (tag : String) : Entry :=
  .tagAdded ⟨address, Nat.le_of_lt_succ address.isLt⟩ tag

/-- The first bytes of a log are the frames that fit into them and a part of the next frame. -/
theorem take_frames (es : List Entry) (k : Nat) :
    ∃ kept part, kept <+: es ∧ (frames es).take k = frames kept ++ part ∧
      (∀ more, more <+: es → (frames more).length ≤ k → more <+: kept) ∧
      (part = [] ∨ ∃ e ∈ es, ∃ j < (bytes e).length, part = (bytes e).take j) := by
  induction es generalizing k with
  | nil => exact ⟨[], [], List.prefix_rfl, List.take_nil, fun more h _ => h, .inl rfl⟩
  | cons e es ih =>
    by_cases hk : (bytes e).length ≤ k
    · obtain ⟨kept, part, hkept, htake, hmax, hpart⟩ := ih (k - (bytes e).length)
      refine ⟨e :: kept, part, List.cons_prefix_cons.mpr ⟨rfl, hkept⟩, ?_, ?_, ?_⟩
      · rw [frames_cons, List.take_append, List.take_of_length_le hk, htake, frames_cons,
          List.append_assoc]
      · intro more hmore hlen
        cases more with
        | nil => exact List.nil_prefix
        | cons x more =>
          obtain ⟨rfl, htail⟩ := List.cons_prefix_cons.mp hmore
          rw [frames_cons, List.length_append] at hlen
          exact List.cons_prefix_cons.mpr ⟨rfl, hmax more htail (by omega)⟩
      · refine hpart.imp_right ?_
        rintro ⟨x, hx, hj⟩
        exact ⟨x, List.mem_cons_of_mem e hx, hj⟩
    · have hlt := Nat.not_le.mp hk
      refine ⟨[], (bytes e).take k, List.nil_prefix, ?_, ?_, .inr ⟨e, List.mem_cons_self, k, hlt, rfl⟩⟩
      · rw [frames_cons, List.take_append_of_le_length (Nat.le_of_lt hlt)]
        rfl
      · intro more hmore hlen
        cases more with
        | nil => exact List.nil_prefix
        | cons x more =>
          obtain ⟨rfl, -⟩ := List.cons_prefix_cons.mp hmore
          rw [frames_cons, List.length_append] at hlen
          omega

variable {es after : List Entry} {e : Entry} {w : List UInt8}

/-- A log cut short at any byte is read as the longest run of its entries whose frames are left whole, and what
is left of the frame behind them is torn. Only if a verified frame starts within that part, the log is corrupt. -/
theorem replay_cut (durability : Durability) (now : Nat) (m : Medium) (hes : ∀ e ∈ es, Fits e) {k : Nat}
    (hk : k ≤ (frames es).length) :
    let answer := ((ofFile durability ((frames es).take k) now).replay m).1
    ∃ kept part, kept <+: es ∧ (frames kept).length ≤ k ∧
      (∀ more, more <+: es → (frames more).length ≤ k → more <+: kept) ∧
      (frames es).take k = frames kept ++ part ∧
      ((∀ i, 0 < i → ¬Starts (part.drop i)) →
        answer = .ok ⟨kept, (frames kept).length, k - (frames kept).length⟩) ∧
      ((∃ i, 0 < i ∧ Starts (part.drop i)) → ∃ f, answer = .error (.corruption f)) := by
  intro answer
  obtain ⟨kept, part, hkept, htake, hmax, hpart⟩ := take_frames es k
  have hlen : (frames kept).length + part.length = k := by
    rw [← List.length_append, ← htake, List.length_take, Nat.min_eq_left hk]
  have hruns : RunsOut part := by
    rcases hpart with rfl | ⟨e, he, j, hj, rfl⟩
    · exact .inl (by decide)
    · exact decode_eq_incomplete_iff.mp (decode_verified_take (verified_bytes (hes e he)) hj)
  have hfits : ∀ e ∈ kept, Fits e := fun e he => hes e (hkept.subset he)
  have ⟨hok, herror⟩ := ofBytes_framed_append (framed_frames hfits) (not_starts_of_runsOut hruns)
  rw [ends_iff_of_runsOut hruns, ← htake] at hok herror
  refine ⟨kept, part, hkept, by omega, hmax, htake, fun hs => ?_, fun ⟨i, hi, hs⟩ => ?_⟩
  · have htorn : part.length = k - (frames kept).length := by omega
    exact replay_ofFile_eq_ok_iff.mpr (htorn ▸ hok hs)
  · exact replay_ofFile_corrupt_iff.mpr (herror fun hnone => hnone i hi hs)

/-- Two frames, of which the second is cut. -/
theorem replay_cut_within_second :
    (∀ e ∈ [tagOn 1 "", tagOn 2 ""], Fits e) ∧ 40 ≤ (frames [tagOn 1 "", tagOn 2 ""]).length ∧
      ((ofFile .strict ((frames [tagOn 1 "", tagOn 2 ""]).take 40) 0).replay .sound).1 =
        .ok ⟨[tagOn 1 ""], 25, 15⟩ := by
  have hfits : ∀ e ∈ [tagOn 1 "", tagOn 2 ""], Fits e := by decide
  have hk : 40 ≤ (frames [tagOn 1 "", tagOn 2 ""]).length := by decide
  refine ⟨hfits, hk, ?_⟩
  obtain ⟨kept, part, hkept, hlen, hmax, htake, hok, -⟩ := replay_cut .strict 0 .sound hfits hk
  obtain rfl : kept = [tagOn 1 ""] := by
    obtain ⟨others, rfl⟩ : [tagOn 1 ""] <+: kept := hmax _ (List.prefix_append _ _) (by decide)
    cases others with
    | nil => rfl
    | cons x others =>
      obtain ⟨rfl, -⟩ := List.cons_prefix_cons.mp ((List.prefix_append_right_inj _).mp hkept)
      have hfirst : (bytes (tagOn 1 "")).length = 25 := by decide
      have hsecond : (bytes (tagOn 2 "")).length = 25 := by decide
      simp only [frames_append, frames_cons, List.length_append] at hlen
      omega
  have hpart : part = (bytes (tagOn 2 "")).take 15 :=
    List.append_cancel_left (htake.symm.trans (by decide +kernel))
  have hnone : nextFrame? 0 part.tail = none := by
    rw [hpart]
    decide +kernel
  exact hok (nextFrame?_tail_eq_none_iff.mp hnone)

/-- An entry whose text is the frame of another entry. -/
def nested : Entry :=
  tagOn 1 "\x15\x00\x00\x00\x04\x03\x00\x00\x00\x1a\x00\x00\x00\x00\x00\x00\x00\x00\x00\x00\x00\x1dg\x00u"

/-- A frame that holds another in its text is not skipped when it is cut. -/
theorem replay_cut_behind_text :
    Fits nested ∧ 49 ≤ (frames [nested]).length ∧
      ((ofFile .strict ((frames [nested]).take 49) 0).replay .sound).1 =
        .error (.corruption (.overrun 0 21)) := by
  decide +kernel

/-- A log from a frame on whose length was overwritten. -/
def overwritten (w : List UInt8) (e : Entry) (after : List Entry) : List UInt8 :=
  w ++ (bytes e).drop 4 ++ frames after

theorem declaredSize?_overwritten (hw : w.length = 4) :
    declaredSize? (overwritten w e after) = some (4 + Binary.value w) := by
  rw [overwritten, List.append_assoc]
  exact declaredSize?_eq w _ hw

theorem drop_overwritten (hw : w.length = 4) :
    (overwritten w e after).drop (bytes e).length = frames after := by
  have hlen : (w ++ (bytes e).drop 4).length = (bytes e).length := by
    have := length_bytes e
    rw [List.length_append, List.length_drop, hw]
    omega
  exact List.drop_left' hlen

theorem starts_frames (hne : es ≠ []) (h : ∀ x ∈ es, Fits x) : Starts (frames es) := by
  cases es with
  | nil => exact absurd rfl hne
  | cons x xs => exact ⟨bytes x, x, verified_bytes (h x List.mem_cons_self), List.prefix_append _ _⟩

theorem decode_overwritten (he : Fits e) (hw : w.length = 4) (hne : w ≠ (bytes e).take 4)
    (hs : Starts (overwritten w e after)) :
    bodySize e < Binary.value w ∧
      decode (overwritten w e after) = .ok (.whole e (4 + Binary.value w)) := by
  obtain ⟨hle, hdecode⟩ := decode_of_starts he hw hs
  refine ⟨Nat.lt_of_le_of_ne hle fun heq => ?_, hdecode⟩
  exact hne (by rw [take_bytes, heq, Binary.natural_value hw])

/-- Reading ends well at a damaged length only if it reaches exactly to the end of the log. One that runs past
the end is noticed by the frames behind. -/
theorem ends_overwritten_iff (hw : w.length = 4) (hs : ¬Starts (overwritten w e after)) (hne : after ≠ [])
    (hfits : ∀ x ∈ after, Fits x) :
    Ended (overwritten w e after) ∨ Unreadable (overwritten w e after) ↔
      4 + Binary.value w = (overwritten w e after).length := by
  have hd : declaredSize? (overwritten w e after) = some (4 + Binary.value w) :=
    declaredSize?_overwritten hw
  by_cases hruns : RunsOut (overwritten w e after)
  · have hover : (overwritten w e after).length < 4 + Binary.value w := by
      rcases hruns with hshort | ⟨n, hn, -, hlt⟩
      · exact absurd (declaredSize?_eq_some_iff.mp hd).1 (Nat.not_le.mpr hshort)
      · rw [hd] at hn
        rwa [Option.some.inj hn]
    have hbehind : Starts ((overwritten w e after).drop (bytes e).length) := by
      rw [drop_overwritten hw]
      exact starts_frames hne hfits
    rw [ends_iff_of_runsOut hruns]
    constructor
    · intro hnone
      exact absurd hbehind (hnone (bytes e).length (by rw [length_bytes]; omega))
    · intro heq
      omega
  · obtain ⟨f, hf⟩ := decode_error_iff.mpr ⟨hruns, hs⟩
    rw [ends_iff_of_error hf, hd, Option.some.injEq]

/-- A log in which another length stands before a frame that is not the last is corrupt, if the frame does not
end exactly at the end of the log by that length. If it does, then all from that frame on is taken for
torn. Only a greater length by which the frame takes in a checksum that fits, from the bytes behind it, is
not noticed here, and then the entry is read all the same. -/
theorem replay_damaged_length (durability : Durability) (now : Nat) (m : Medium)
    (before : List Entry) (e : Entry) (after : List Entry)
    (hfits : ∀ x ∈ before ++ e :: after, Fits x) (hafter : after ≠ []) {w : List UInt8}
    (hw : w.length = 4) (hne : w ≠ (bytes e).take 4) :
    let rest := overwritten w e after
    let answer := ((ofFile durability (frames before ++ rest) now).replay m).1
    (¬Starts rest →
      ((∃ f, answer = .error (.corruption f)) ↔ 4 + Binary.value w ≠ rest.length) ∧
      (4 + Binary.value w = rest.length →
        answer = .ok ⟨before, (frames before).length, rest.length⟩)) ∧
    (Starts rest →
      bodySize e < Binary.value w ∧ decode rest = .ok (.whole e (4 + Binary.value w)) ∧
      ∀ r, answer = .ok r → before ++ [e] <+: r.entries) := by
  intro rest answer
  have hbefore : ∀ x ∈ before, Fits x := fun x hx => hfits x (List.mem_append_left _ hx)
  have hlater : ∀ x ∈ after, Fits x := fun x hx => hfits x (by simp [hx])
  constructor
  · intro hs
    have ⟨hok, herror⟩ := ofBytes_framed_append (framed_frames hbefore) hs
    rw [ends_overwritten_iff hw hs hafter hlater] at hok herror
    refine ⟨replay_ofFile_corrupt_iff.trans ⟨fun ⟨f, hf⟩ hlast => ?_, herror⟩,
      fun hlast => replay_ofFile_eq_ok_iff.mpr (hok hlast)⟩
    rw [hok hlast] at hf
    cases hf
  · intro hs
    obtain ⟨hlt, hdecode⟩ := decode_overwritten (hfits e (by simp)) hw hne hs
    refine ⟨hlt, hdecode, fun r hr => ?_⟩
    exact entries_of_decode (framed_frames hbefore) hdecode (replay_ofFile_eq_ok_iff.mp hr)

/-- A length that runs past the end of the log. -/
theorem replay_overlong_length :
    [255, 0, 0, 0] ≠ (bytes (tagOn 1 "")).take 4 ∧
      ∃ f, ((ofFile .strict (frames [] ++ overwritten [255, 0, 0, 0] (tagOn 1 "") [tagOn 2 ""])
        0).replay .sound).1 = .error (.corruption f) := by
  have hne : [255, 0, 0, 0] ≠ (bytes (tagOn 1 "")).take 4 := by decide
  have hruns : RunsOut (overwritten [255, 0, 0, 0] (tagOn 1 "") [tagOn 2 ""]) :=
    .inr ⟨259, rfl, ⟨by decide, by decide⟩, by decide⟩
  have h := replay_damaged_length .strict 0 .sound [] (tagOn 1 "") [tagOn 2 ""] (by decide) (by decide) rfl hne
  exact ⟨hne, (h.1 (not_starts_of_runsOut hruns)).1.mpr (by decide)⟩

/-- A length that reaches exactly to the end of the log loses the sound frame behind. -/
theorem replay_length_to_end :
    Fits (tagOn 1 "") ∧ Fits (tagOn 2 "") ∧ [46, 0, 0, 0] ≠ (bytes (tagOn 1 "")).take 4 ∧
      ((ofFile .strict (overwritten [46, 0, 0, 0] (tagOn 1 "") [tagOn 2 ""]) 0).replay .sound).1 =
        .ok ⟨[], 0, 50⟩ := by
  decide +kernel

/-- A longer frame can be verified by chance, with what follows the entry in its payload left over. -/
example : decode (overwritten [48, 0, 0, 0] (tagOn 1 "") [tagOn 2 "aj3Y+IA\x00\x00\x00"]) =
    .ok (.whole (tagOn 1 "") 52) := by
  decide +kernel

end Replay
end Log
end FlightTrace
