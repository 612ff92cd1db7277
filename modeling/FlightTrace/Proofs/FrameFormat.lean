import FlightTrace.Log.Replay

/-! Frames as bytes. A frame is verified if its length, tag, payload and checksum belong together; its payload
may go on behind the entry. Decoding finds a verified frame, runs past the end of the bytes, or refuses
them, and which of the three depends on nothing behind the frame. -/
namespace FlightTrace

namespace Binary

theorem natural_value {width : Nat} {bs : List UInt8} (h : bs.length = width) :
    natural width (value bs) = bs := by
  subst h
  induction bs with
  | nil => rfl
  | cons b bs ih =>
    have hb : b.toNat < 256 := b.toNat_lt
    have hdiv : (b.toNat + 256 * value bs) / 256 = value bs := by omega
    have hfirst : UInt8.ofNat (b.toNat + 256 * value bs) = b := by
      apply UInt8.toNat_inj.mp
      rw [UInt8.toNat_ofNat']
      omega
    rw [List.length_cons, value, natural, hdiv, hfirst, ih]

end Binary

namespace Log
namespace Frame

/-- The bytes of a whole frame that its checksum is taken of. -/
def content (f : List UInt8) : List UInt8 := (f.take (f.length - 4)).drop 4

/-- The checksum that a whole frame ends with. -/
def stored (f : List UInt8) : Nat := Binary.value (f.drop (f.length - 4))

/-- The lengths of whole frames that can be read at all. -/
def Admissible (n : Nat) : Prop := 9 ≤ n ∧ n ≤ 4 + maxBody

/-- A frame whose length, tag and checksum fit a payload that holds an entry. -/
def Verified (f : List UInt8) (e : Entry) : Prop :=
  ∃ payload, Entry.ofBytes? payload = some e ∧ 5 + payload.length ≤ maxBody ∧
    f = Binary.natural 4 (5 + payload.length) ++ (tag e :: payload) ++
      Binary.natural 4 (Crc32.checksum (tag e :: payload))

/-- The bytes end before the length of a frame does, or before the frame of that length. -/
def RunsOut (bs : List UInt8) : Prop :=
  bs.length < 4 ∨ ∃ n, declaredSize? bs = some n ∧ Admissible n ∧ bs.length < n

def Starts (bs : List UInt8) : Prop := ∃ f e, Verified f e ∧ f <+: bs

theorem declaredSize?_eq (w rest : List UInt8) (h : w.length = 4) :
    declaredSize? (w ++ rest) = some (4 + Binary.value w) := by
  match w, h with
  | [a, b, c, d], _ => rfl

theorem declaredSize?_eq_some_iff {bs : List UInt8} {n : Nat} :
    declaredSize? bs = some n ↔ 4 ≤ bs.length ∧ n = 4 + Binary.value (bs.take 4) := by
  by_cases h : 4 ≤ bs.length
  · have hw : (bs.take 4).length = 4 := by rw [List.length_take]; omega
    have hd := declaredSize?_eq (bs.take 4) (bs.drop 4) hw
    rw [List.take_append_drop] at hd
    rw [hd, Option.some.injEq]
    exact ⟨fun e => ⟨h, e.symm⟩, fun e => e.2.symm⟩
  · have hn : declaredSize? bs = none := by
      match bs, h with
      | [], _ | [_], _ | [_, _], _ | [_, _, _], _ => rfl
      | _ :: _ :: _ :: _ :: _, h => exact absurd (by simp) h
    simp [hn, h]

theorem decode_of_declared {bs : List UInt8} {n : Nat} (hd : declaredSize? bs = some n)
    (ha : Admissible n) (hn : n ≤ bs.length) :
    decode bs = (decodeBody ((bs.take n).drop 4)).map (.whole · n) := by
  have h₁ : ¬n < 9 := Nat.not_lt.mpr ha.1
  have h₂ : ¬maxBody < n - 4 := by have := ha.2; omega
  simp only [decode, hd, h₁, h₂, Nat.not_lt.mpr hn, if_false]

theorem decode_of_inadmissible {bs : List UInt8} {n : Nat} (hd : declaredSize? bs = some n)
    (ha : ¬Admissible n) : ∃ f, decode bs = .error f := by
  by_cases h₁ : n < 9
  · exact ⟨.short (n - 4), by simp only [decode, hd, h₁, if_true]⟩
  · have h₂ : maxBody < n - 4 := by
      unfold Admissible at ha
      omega
    exact ⟨.long (n - 4), by simp only [decode, hd, h₁, h₂, if_false, if_true]⟩

theorem decode_eq_incomplete_iff {bs : List UInt8} : decode bs = .ok .incomplete ↔ RunsOut bs := by
  cases hd : declaredSize? bs with
  | none =>
    have hshort : bs.length < 4 := by
      refine Nat.lt_of_not_le fun h => ?_
      have := declaredSize?_eq_some_iff.mpr ⟨h, rfl⟩
      rw [hd] at this
      exact absurd this (by simp)
    simp [decode, hd, RunsOut, hshort]
  | some n =>
    have hlong : ¬bs.length < 4 := Nat.not_lt.mpr (declaredSize?_eq_some_iff.mp hd).1
    have hruns : RunsOut bs ↔ Admissible n ∧ bs.length < n := by
      simp [RunsOut, hlong, hd]
    rw [hruns]
    by_cases ha : Admissible n
    · by_cases hn : bs.length < n
      · have h₁ : ¬n < 9 := Nat.not_lt.mpr ha.1
        have h₂ : ¬maxBody < n - 4 := by have := ha.2; omega
        simp [decode, hd, h₁, h₂, hn, ha]
      · rw [decode_of_declared hd ha (Nat.not_lt.mp hn)]
        cases decodeBody ((bs.take n).drop 4) <;> simp [Except.map, hn]
    · obtain ⟨f, hf⟩ := decode_of_inadmissible hd ha
      simp [hf, ha]

theorem length_content (f : List UInt8) : (content f).length = f.length - 8 := by
  simp only [content, List.length_drop, List.length_take]
  omega

theorem parts_eq {f : List UInt8} (h : 8 ≤ f.length) :
    f = f.take 4 ++ content f ++ f.drop (f.length - 4) := by
  have hfirst : f.take 4 = (f.take (f.length - 4)).take 4 := by
    rw [List.take_take, Nat.min_eq_left (by omega)]
  rw [hfirst, content, List.take_append_drop, List.take_append_drop]

theorem content_append {w c s : List UInt8} (hw : w.length = 4) (hs : s.length = 4) :
    content (w ++ c ++ s) = c := by
  have hlen : (w ++ c ++ s).length - 4 = (w ++ c).length := by
    rw [List.length_append, hs, Nat.add_sub_cancel]
  rw [content, hlen, List.take_left, ← hw, List.drop_left]

theorem stored_append {w c s : List UInt8} (hs : s.length = 4) :
    stored (w ++ c ++ s) = Binary.value s := by
  have hlen : (w ++ c ++ s).length - 4 = (w ++ c).length := by
    rw [List.length_append, hs, Nat.add_sub_cancel]
  rw [stored, hlen, List.drop_left]

theorem decodeBody_drop {f : List UInt8} (h : 8 ≤ f.length) :
    decodeBody (f.drop 4) =
      if Crc32.checksum (content f) ≠ stored f then
        .error (.checksum (stored f) (Crc32.checksum (content f)))
      else
        match Entry.ofBytes? (content f).tail with
        | none => .error .undecodable
        | some e =>
          if (content f).head? = some (tag e) then .ok e
          else .error (.wrongTag ((content f).headD 0).toNat) := by
  have hlen : (f.drop 4).length - 4 = f.length - 4 - 4 := by rw [List.length_drop]
  have hcontent : (f.drop 4).take ((f.drop 4).length - 4) = content f := by
    rw [hlen, content, List.drop_take]
  have hstored : Binary.value ((f.drop 4).drop ((f.drop 4).length - 4)) = stored f := by
    have hend : 4 + (f.length - 4 - 4) = f.length - 4 := by omega
    rw [hlen, List.drop_drop, hend, stored]
  rw [← hcontent, ← hstored]
  rfl

theorem decodeBody_eq_ok_iff {f : List UInt8} {e : Entry} (h : 8 ≤ f.length) :
    decodeBody (f.drop 4) = .ok e ↔ Crc32.checksum (content f) = stored f ∧
      Entry.ofBytes? (content f).tail = some e ∧ (content f).head? = some (tag e) := by
  rw [decodeBody_drop h]
  by_cases hsum : Crc32.checksum (content f) = stored f
  · cases Entry.ofBytes? (content f).tail with
    | none => simp [hsum]
    | some x =>
      by_cases htag : (content f).head? = some (tag x)
      · have hx : x = e → tag x = tag e := congrArg tag
        simpa [hsum, htag] using hx
      · have hx : x = e → ¬(content f).head? = some (tag e) := fun h => h ▸ htag
        simpa [hsum, htag] using hx
  · simp [hsum]

theorem verified_iff {f : List UInt8} {e : Entry} :
    Verified f e ↔ declaredSize? f = some f.length ∧ Admissible f.length ∧
      decodeBody (f.drop 4) = .ok e := by
  constructor
  · rintro ⟨payload, hread, hmax, hf⟩
    have hlen : f.length = 9 + payload.length := by
      simp only [hf, List.length_append, Binary.length_natural, List.length_cons]
      omega
    have hsize := Binary.value_natural 4 (5 + payload.length) (Nat.lt_of_le_of_lt hmax (by decide))
    have hsum := Binary.value_natural 4 (Crc32.checksum (tag e :: payload)) (Crc32.checksum_lt _)
    have hw := Binary.length_natural 4 (5 + payload.length)
    have hs := Binary.length_natural 4 (Crc32.checksum (tag e :: payload))
    refine ⟨?_, ⟨by omega, by omega⟩, ?_⟩
    · rw [hlen, hf, List.append_assoc, declaredSize?_eq _ _ hw, hsize]
      congr 1
      omega
    · rw [decodeBody_eq_ok_iff (by omega), hf, content_append hw hs, stored_append hs, hsum]
      exact ⟨rfl, hread, rfl⟩
  · rintro ⟨hd, ha, hbody⟩
    have h₈ : 8 ≤ f.length := Nat.le_trans (by decide) ha.1
    obtain ⟨hsum, hread, hhead⟩ := (decodeBody_eq_ok_iff h₈).mp hbody
    obtain ⟨payload, hpayload⟩ : ∃ payload, content f = tag e :: payload := by
      cases hc : content f with
      | nil => simp [hc] at hhead
      | cons t payload =>
        rw [hc] at hhead
        exact ⟨payload, by rw [Option.some.inj hhead]⟩
    have hlen : f.length = 9 + payload.length := by
      have := length_content f
      rw [hpayload, List.length_cons] at this
      have := ha.1
      omega
    have hfirst : f.take 4 = Binary.natural 4 (5 + payload.length) := by
      have hw : (f.take 4).length = 4 := by
        rw [List.length_take]
        omega
      have hvalue : 5 + payload.length = Binary.value (f.take 4) := by
        have := (declaredSize?_eq_some_iff.mp hd).2
        omega
      rw [hvalue, Binary.natural_value hw]
    have hlast : f.drop (f.length - 4) = Binary.natural 4 (Crc32.checksum (tag e :: payload)) := by
      have hs : (f.drop (f.length - 4)).length = 4 := by
        rw [List.length_drop]
        omega
      rw [← hpayload, hsum, stored, Binary.natural_value hs]
    refine ⟨payload, by rwa [hpayload] at hread, by have := ha.2; omega, ?_⟩
    rw [← hfirst, ← hlast, ← hpayload]
    exact parts_eq h₈

theorem declaredSize?_take {bs : List UInt8} {n : Nat} (h : 4 ≤ n) :
    declaredSize? (bs.take n) = declaredSize? bs := by
  have htake : (bs.take n).take 4 = bs.take 4 := by
    rw [List.take_take, Nat.min_eq_left h]
  have hlen : 4 ≤ (bs.take n).length ↔ 4 ≤ bs.length := by
    rw [List.length_take]
    omega
  apply Option.ext
  intro m
  rw [declaredSize?_eq_some_iff, declaredSize?_eq_some_iff, htake, hlen]

theorem declaredSize?_verified_append {f : List UInt8} {e : Entry} (h : Verified f e) (rest : List UInt8) :
    declaredSize? (f ++ rest) = some f.length := by
  obtain ⟨hd, ha, -⟩ := verified_iff.mp h
  have htake : declaredSize? ((f ++ rest).take f.length) = declaredSize? (f ++ rest) :=
    declaredSize?_take (Nat.le_trans (by decide) ha.1)
  rw [← htake, List.take_left, hd]

theorem decode_eq_whole_iff {bs : List UInt8} {e : Entry} {n : Nat} :
    decode bs = .ok (.whole e n) ↔ n ≤ bs.length ∧ Verified (bs.take n) e := by
  constructor
  · intro h
    obtain ⟨m, hd⟩ : ∃ m, declaredSize? bs = some m := by
      cases hd : declaredSize? bs with
      | none => simp [decode, hd] at h
      | some m => exact ⟨m, rfl⟩
    have ha : Admissible m := by
      refine Classical.byContradiction fun ha => ?_
      obtain ⟨f, hf⟩ := decode_of_inadmissible hd ha
      simp [hf] at h
    have hm : m ≤ bs.length := by
      refine Nat.le_of_not_lt fun hm => ?_
      rw [decode_eq_incomplete_iff.mpr (.inr ⟨m, hd, ha, hm⟩)] at h
      simp at h
    rw [decode_of_declared hd ha hm] at h
    obtain ⟨hbody, rfl⟩ : decodeBody ((bs.take m).drop 4) = .ok e ∧ m = n := by
      cases hb : decodeBody ((bs.take m).drop 4) with
      | error f => simp [hb, Except.map] at h
      | ok x => simpa [hb, Except.map] using h
    have hlen : (bs.take m).length = m := by rw [List.length_take, Nat.min_eq_left hm]
    refine ⟨hm, verified_iff.mpr ⟨?_, by rwa [hlen], hbody⟩⟩
    rw [hlen, declaredSize?_take (Nat.le_trans (by decide) ha.1), hd]
  · rintro ⟨hn, hv⟩
    have hlen : (bs.take n).length = n := by rw [List.length_take, Nat.min_eq_left hn]
    obtain ⟨hd, ha, hbody⟩ := verified_iff.mp hv
    rw [hlen] at hd ha
    rw [declaredSize?_take (Nat.le_trans (by decide) ha.1)] at hd
    rw [decode_of_declared hd ha hn, hbody]
    rfl

theorem decode_verified_append {f : List UInt8} {e : Entry} (h : Verified f e) (rest : List UInt8) :
    decode (f ++ rest) = .ok (.whole e f.length) := by
  rw [decode_eq_whole_iff, List.take_left]
  exact ⟨by simp, h⟩

/-- A verified frame that is cut short is missing its end. -/
theorem decode_verified_take {f : List UInt8} {e : Entry} (h : Verified f e) {k : Nat}
    (hk : k < f.length) : decode (f.take k) = .ok .incomplete := by
  obtain ⟨hd, ha, -⟩ := verified_iff.mp h
  have hlen : (f.take k).length = k := by rw [List.length_take, Nat.min_eq_left (Nat.le_of_lt hk)]
  rw [decode_eq_incomplete_iff, RunsOut, hlen]
  by_cases h₄ : k < 4
  · exact .inl h₄
  · exact .inr ⟨f.length, by rw [declaredSize?_take (Nat.not_lt.mp h₄), hd], ha, hk⟩

theorem decode_of_startsWith {bs more : List UInt8} {e : Entry} {n : Nat}
    (h : decode bs = .ok (.whole e n)) (hp : bs.take n <+: more) :
    decode more = .ok (.whole e n) := by
  obtain ⟨hn, hv⟩ := decode_eq_whole_iff.mp h
  obtain ⟨rest, rfl⟩ := hp
  rw [decode_verified_append hv, List.length_take, Nat.min_eq_left hn]

theorem starts_iff {bs : List UInt8} : Starts bs ↔ ∃ e n, decode bs = .ok (.whole e n) := by
  constructor
  · rintro ⟨f, e, hv, rest, rfl⟩
    exact ⟨e, f.length, decode_verified_append hv rest⟩
  · rintro ⟨e, n, h⟩
    exact ⟨bs.take n, e, (decode_eq_whole_iff.mp h).2, List.take_prefix n bs⟩

theorem not_starts_of_runsOut {bs : List UInt8} (h : RunsOut bs) : ¬Starts bs := by
  rw [starts_iff, decode_eq_incomplete_iff.mpr h]
  simp

/-- Decoding refuses the bytes if they are long enough and no verified frame is at their front. -/
theorem decode_error_iff {bs : List UInt8} :
    (∃ f, decode bs = .error f) ↔ ¬RunsOut bs ∧ ¬Starts bs := by
  rw [← decode_eq_incomplete_iff, starts_iff]
  cases decode bs with
  | error f => simp
  | ok d => cases d <;> simp

end Frame
end Log
end FlightTrace
