import FlightTrace.Proofs.LogDamage

/-! One damaged byte. Each step of the checksum can be undone if the byte is known, and tells the byte if the
register before it is known, so no other byte in one place leaves the checksum as it was. A frame in
which one byte behind the length was changed is therefore refused, and its length still says where it ends. -/
namespace FlightTrace

namespace Crc32

/-- The polynomial has the highest bit, so that bit shows which bit was taken out. -/
theorem getLsbD_shift_last (r : Register) : (shift r).getLsbD 31 = r.getLsbD 0 := by
  unfold shift
  cases h : r.getLsbD 0 <;> simp

theorem shift_injective : Function.Injective shift := by
  intro r s h
  have hlow : r.getLsbD 0 = s.getLsbD 0 := by
    rw [← getLsbD_shift_last, h, getLsbD_shift_last]
  have hhigh : r >>> 1 = s >>> 1 := by
    unfold shift at h
    rw [hlow] at h
    split at h
    · exact (BitVec.xor_left_inj _).mp h
    · exact h
  apply BitVec.eq_of_getLsbD_eq
  intro i _
  cases i with
  | zero => exact hlow
  | succ i => simpa [Nat.add_comm] using congrArg (fun x => x.getLsbD i) hhigh

theorem step_left_injective (b : UInt8) : Function.Injective fun r => step r b := by
  intro r s h
  have hxor : r ^^^ b.toBitVec.setWidth 32 = s ^^^ b.toBitVec.setWidth 32 := by
    iterate 8 apply shift_injective
    exact h
  exact (BitVec.xor_left_inj _).mp hxor

theorem step_right_injective (r : Register) : Function.Injective (step r) := by
  intro b c h
  have hxor : r ^^^ b.toBitVec.setWidth 32 = r ^^^ c.toBitVec.setWidth 32 := by
    iterate 8 apply shift_injective
    exact h
  have hbyte := congrArg (BitVec.setWidth 8) ((BitVec.xor_right_inj _).mp hxor)
  simp at hbyte
  exact UInt8.toBitVec_inj.mp hbyte

theorem foldl_step_injective (bs : List UInt8) : Function.Injective fun r => bs.foldl step r := by
  induction bs with
  | nil => exact fun r s h => h
  | cons b bs ih =>
    intro r s h
    exact step_left_injective b (ih h)

theorem checksum_eq_iff {bs cs : List UInt8} :
    checksum bs = checksum cs ↔ bs.foldl step (~~~ 0#32) = cs.foldl step (~~~ 0#32) := by
  unfold checksum
  constructor
  · intro h
    exact BitVec.not_inj.mp (BitVec.eq_of_toNat_eq h)
  · intro h
    rw [h]

/-- No other byte in the same place has the same checksum. -/
theorem eq_of_checksum_eq {front back : List UInt8} {b c : UInt8}
    (h : checksum (front ++ b :: back) = checksum (front ++ c :: back)) : b = c := by
  rw [checksum_eq_iff, List.foldl_append, List.foldl_append, List.foldl_cons, List.foldl_cons] at h
  exact step_right_injective _ (foldl_step_injective back h)

theorem checksum_set_ne {bs : List UInt8} {i : Nat} (hi : i < bs.length) {b : UInt8} (hb : b ≠ bs[i]) :
    checksum (bs.set i b) ≠ checksum bs := by
  intro h
  have hparts : bs = bs.take i ++ bs[i] :: bs.drop (i + 1) := by
    rw [List.getElem_cons_drop, List.take_append_drop]
  rw [List.set_eq_take_append_cons_drop, if_pos hi] at h
  conv at h => rhs; rw [hparts]
  exact hb (eq_of_checksum_eq h)

end Crc32

namespace Log

namespace Frame

theorem stored_inj {f g : List UInt8} (h : f.length = g.length) (h₄ : 4 ≤ g.length)
    (hs : stored f = stored g) : f.drop (f.length - 4) = g.drop (g.length - 4) := by
  have hf : (f.drop (f.length - 4)).length = 4 := by
    rw [List.length_drop]
    omega
  have hg : (g.drop (g.length - 4)).length = 4 := by
    rw [List.length_drop]
    omega
  rw [← Binary.natural_value hf, ← Binary.natural_value hg]
  exact congrArg (Binary.natural 4) hs

variable {f rest : List UInt8} {e : Entry} {i : Nat} {b : UInt8}

/-- A verified frame has another checksum than it says once a byte behind its length is changed, be it a byte
that the checksum is taken of or one of the checksum. -/
theorem checksum_set_ne_stored (h : Verified f e) (h₄ : 4 ≤ i) (hi : i < f.length) (hb : b ≠ f[i]) :
    Crc32.checksum (content (f.set i b)) ≠ stored (f.set i b) := by
  obtain ⟨-, ha, hbody⟩ := verified_iff.mp h
  obtain ⟨hsum, -⟩ := (decodeBody_eq_ok_iff (Nat.le_trans (by decide) ha.1)).mp hbody
  by_cases hlast : i < f.length - 4
  · have hstored : stored (f.set i b) = stored f := by
      rw [stored, List.length_set, List.drop_set_of_lt hlast, stored]
    have hcontent : content (f.set i b) = (content f).set (i - 4) b := by
      rw [content, List.length_set, List.take_set, List.drop_set, if_neg (Nat.not_lt.mpr h₄), content]
    have hlen : i - 4 < (content f).length := by
      rw [length_content]
      omega
    have hbyte : (content f)[i - 4] = f[i] := by
      simp only [content, List.getElem_drop, List.getElem_take]
      congr 1
      omega
    rw [hstored, hcontent, ← hsum]
    exact Crc32.checksum_set_ne hlen (hbyte ▸ hb)
  · have hcontent : content (f.set i b) = content f := by
      rw [content, List.length_set, List.take_set_of_le (Nat.not_lt.mp hlast), content]
    rw [hcontent, hsum]
    intro hs
    have hend := stored_inj (List.length_set ..).symm (by rw [List.length_set]; omega) hs
    have hbyte := congrArg (fun bs => bs[i - (f.length - 4)]?) hend
    have hplace : f.length - 4 + (i - (f.length - 4)) = i := by omega
    simp only [List.length_set, List.getElem?_drop, hplace, List.getElem?_set_self hi,
      List.getElem?_eq_getElem hi, Option.some.injEq] at hbyte
    exact hb hbyte.symm

/-- A verified frame in which a byte behind the length is changed is refused for its checksum, whatever
follows it, and still states its length. -/
theorem decode_set_append (h : Verified f e) (h₄ : 4 ≤ i) (hi : i < f.length) (hb : b ≠ f[i])
    (rest : List UInt8) :
    decode (f.set i b ++ rest) =
        .error (.checksum (stored (f.set i b)) (Crc32.checksum (content (f.set i b)))) ∧
      declaredSize? (f.set i b ++ rest) = some f.length := by
  obtain ⟨hd, ha, -⟩ := verified_iff.mp h
  have hlen : (f.set i b).length = f.length := List.length_set ..
  have h₈ : 8 ≤ (f.set i b).length := by
    rw [hlen]
    exact Nat.le_trans (by decide) ha.1
  have hsize : declaredSize? (f.set i b ++ rest) = some f.length := by
    have htake : ∀ bs : List UInt8, declaredSize? (bs.take 4) = declaredSize? bs :=
      fun bs => declaredSize?_take (Nat.le_refl 4)
    rw [← htake, List.take_append_of_le_length (Nat.le_trans (by decide) h₈), List.take_set_of_le h₄,
      htake, hd]
  refine ⟨?_, hsize⟩
  have hwhole : (f.set i b ++ rest).take f.length = f.set i b := by
    rw [← hlen, List.take_left]
  rw [decode_of_declared hsize ha (by rw [List.length_append]; omega), hwhole, decodeBody_drop h₈,
    if_pos (checksum_set_ne_stored h h₄ hi hb)]
  rfl

end Frame

namespace Replay

open FlightTrace.Log.Frame

/-- In a log of whole frames a byte of one frame is changed, behind the length of the frame. If another frame
follows, the log is corrupt at that frame, for its checksum; if it is the last, it is torn. In either case no
entry is read in place of its own. -/
theorem replay_damaged_byte (durability : Durability) (now : Nat) (m : Medium)
    (before : List Entry) (e : Entry) (after : List Entry) (hfits : ∀ x ∈ before ++ e :: after, Fits x)
    {i : Nat} (h₄ : 4 ≤ i) (hi : i < (bytes e).length) {b : UInt8} (hb : b ≠ (bytes e)[i]) :
    let start := (frames before).length
    let file := (frames (before ++ e :: after)).set (start + i) b
    let answer := ((ofFile durability file now).replay m).1
    (after ≠ [] → ∃ stored computed, stored ≠ computed ∧
      answer = .error (.corruption (.frame start (.checksum stored computed)))) ∧
    (after = [] → answer = .ok ⟨before, start, (bytes e).length⟩) := by
  intro start file answer
  have hbefore : Framed (frames before) before :=
    framed_frames fun x hx => hfits x (List.mem_append_left _ hx)
  have hv : Verified (bytes e) e := verified_bytes (hfits e (by simp))
  have hfile : file = frames before ++ ((bytes e).set i b ++ frames after) := by
    simp only [file, frames_append, frames_cons]
    rw [List.set_append_right _ _ (Nat.le_add_right _ _), Nat.add_sub_cancel_left,
      List.set_append_left _ _ hi]
  obtain ⟨hdecode, hsize⟩ := decode_set_append hv h₄ hi hb (frames after)
  have hlength : ((bytes e).set i b ++ frames after).length = (bytes e).length + (frames after).length := by
    rw [List.length_append, List.length_set]
  have hscan : scan start ((bytes e).set i b ++ frames after) = _ := scan_refused hdecode
  simp only [hsize, hlength, Option.some.injEq] at hscan
  have hread : ofBytes file = (scan start ((bytes e).set i b ++ frames after)).map
      fun r => { r with entries := before ++ r.entries } := by
    rw [hfile, ofBytes, scan_framed_append hbefore, Nat.zero_add]
  have hanswer : answer = _ := replay_ofFile durability file now m
  rw [hread] at hanswer
  constructor
  · intro hafter
    have hlast : (bytes e).length ≠ (bytes e).length + (frames after).length := by
      obtain ⟨x, xs, rfl⟩ := List.exists_cons_of_ne_nil hafter
      rw [frames_cons, List.length_append, length_bytes x]
      omega
    refine ⟨_, _, (checksum_set_ne_stored hv h₄ hi hb).symm, ?_⟩
    rw [hanswer, hscan, if_neg hlast]
    rfl
  · rintro rfl
    have hend : (bytes e).length = (bytes e).length + (frames []).length := rfl
    rw [hanswer, hscan, if_pos hend]
    simp [Except.map, torn]

/-- Of two frames, one byte of the text is changed, in the first and in the last. -/
theorem replay_damaged_byte_of_two :
    (∀ x ∈ [tagOn 1 "", tagOn 2 ""], Fits x) ∧
      (10 < (bytes (tagOn 1 "")).length ∧ (bytes (tagOn 1 ""))[10]? ≠ some 255 ∧ ∃ f,
        ((ofFile .strict ((frames [tagOn 1 "", tagOn 2 ""]).set 10 255) 0).replay .sound).1 =
          .error (.corruption (.frame 0 f))) ∧
      (10 < (bytes (tagOn 2 "")).length ∧ (bytes (tagOn 2 ""))[10]? ≠ some 255 ∧
        ((ofFile .strict ((frames [tagOn 1 "", tagOn 2 ""]).set 35 255) 0).replay .sound).1 =
          .ok ⟨[tagOn 1 ""], 25, 25⟩) := by
  have hfits : ∀ x ∈ [tagOn 1 "", tagOn 2 ""], Fits x := by decide
  obtain ⟨stored, computed, -, hcorrupt⟩ :=
    (replay_damaged_byte .strict 0 .sound [] (tagOn 1 "") [tagOn 2 ""] hfits (i := 10) (by decide) (by decide)
      (b := 255) (by decide)).1 (List.cons_ne_nil _ _)
  have htorn := (replay_damaged_byte .strict 0 .sound [tagOn 1 ""] (tagOn 2 "") [] hfits (i := 10)
    (by decide) (by decide) (b := 255) (by decide)).2 rfl
  exact ⟨hfits, ⟨by decide, by decide, _, hcorrupt⟩, by decide, by decide, htorn⟩

end Replay
end Log
end FlightTrace
