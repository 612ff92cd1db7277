import FlightTrace.Proofs.LogScan

/-! The grammar of logs. A log is verified frames and then nothing or one torn frame, and it is read as such.
A last frame that no torn write leaves is read as torn too, if it ends exactly at the end of the log; these
are all the logs that are read at all. -/
namespace FlightTrace
namespace Log

namespace Frame

variable {bs : List UInt8}

theorem length_of_verified {f : List UInt8} {e : Entry} (h : Verified f e) : 9 ≤ f.length :=
  (verified_iff.mp h).2.1.1

theorem not_runsOut (h : declaredSize? bs = some bs.length) : ¬RunsOut bs := by
  rintro (hshort | ⟨n, hd, -, hn⟩)
  · exact absurd (declaredSize?_eq_some_iff.mp h).1 (Nat.not_le.mpr hshort)
  · rw [h] at hd
    exact absurd (Option.some.inj hd) (Nat.ne_of_lt hn)

theorem starts_iff_verified (h : declaredSize? bs = some bs.length) :
    Starts bs ↔ ∃ e, Verified bs e := by
  constructor
  · rintro ⟨f, e, hv, rest, rfl⟩
    rw [declaredSize?_verified_append hv, Option.some.injEq, List.length_append] at h
    have hrest : rest = [] := List.length_eq_zero_iff.mp (by omega)
    exact ⟨e, by rwa [hrest, List.append_nil]⟩
  · rintro ⟨e, hv⟩
    exact ⟨bs, e, hv, List.prefix_refl bs⟩

end Frame

namespace Replay

open FlightTrace.Log.Frame

/-- What a write that was cut short or went wrong leaves at the end of a log. -/
inductive Torn : List UInt8 → Prop where
  /-- The frame runs past the end, and no verified frame starts later. -/
  | cut {bs : List UInt8} : bs ≠ [] → RunsOut bs → (∀ i, 0 < i → ¬Starts (bs.drop i)) → Torn bs
  /-- The frame is whole, and its checksum fails. -/
  | damaged {bs : List UInt8} : declaredSize? bs = some bs.length → Admissible bs.length →
      Crc32.checksum (content bs) ≠ stored bs → Torn bs

/-- One last frame by its length, which is not torn, and from which no entry is read. -/
inductive Unreadable : List UInt8 → Prop where
  | inadmissible {bs : List UInt8} : declaredSize? bs = some bs.length → ¬Admissible bs.length →
      Unreadable bs
  /-- The checksum holds, but there is no entry in the payload, or one with another tag. -/
  | undecodable {bs : List UInt8} : declaredSize? bs = some bs.length → Admissible bs.length →
      Crc32.checksum (content bs) = stored bs →
      (∀ e, Entry.ofBytes? (content bs).tail = some e → (content bs).head? ≠ some (tag e)) →
      Unreadable bs

/-- The end of a log as it should be: nothing, or a torn frame. -/
def Ended (rest : List UInt8) : Prop := rest = [] ∨ Torn rest

/-- A log of verified frames and an end of some kind, and what should be read of it. -/
def Divides (ends : List UInt8 → Prop) (bs : List UInt8) (r : Replay) : Prop :=
  ∃ sound rest, bs = sound ++ rest ∧ Framed sound r.entries ∧ ends rest ∧
    r.soundLength = sound.length ∧ r.tornLength = rest.length

variable {bs : List UInt8} {r : Replay}

/-- A frame is refused exactly at the end of a log if its checksum fails, and for other reasons. -/
theorem refused_at_end_iff :
    (∃ f, decode bs = .error f) ∧ declaredSize? bs = some bs.length ↔
      (declaredSize? bs = some bs.length ∧ Admissible bs.length ∧
        Crc32.checksum (content bs) ≠ stored bs) ∨ Unreadable bs := by
  rw [decode_error_iff]
  constructor
  · rintro ⟨⟨-, hs⟩, hd⟩
    rw [starts_iff_verified hd] at hs
    by_cases ha : Admissible bs.length
    · by_cases hsum : Crc32.checksum (content bs) = stored bs
      · refine .inr (.undecodable hd ha hsum fun e hread htag => hs ⟨e, ?_⟩)
        have h₈ : 8 ≤ bs.length := Nat.le_trans (by decide) ha.1
        exact verified_iff.mpr ⟨hd, ha, (decodeBody_eq_ok_iff h₈).mpr ⟨hsum, hread, htag⟩⟩
      · exact .inl ⟨hd, ha, hsum⟩
    · exact .inr (.inadmissible hd ha)
  · have parts : ∀ e, Verified bs e → Admissible bs.length ∧ Crc32.checksum (content bs) = stored bs ∧
        Entry.ofBytes? (content bs).tail = some e ∧ (content bs).head? = some (tag e) := by
      intro e hv
      obtain ⟨-, ha, hbody⟩ := verified_iff.mp hv
      exact ⟨ha, (decodeBody_eq_ok_iff (Nat.le_trans (by decide) ha.1)).mp hbody⟩
    rintro (⟨hd, -, hsum⟩ | ⟨hd, ha⟩ | ⟨hd, -, -, hread⟩)
    all_goals
      refine ⟨⟨not_runsOut hd, ?_⟩, hd⟩
      rw [starts_iff_verified hd]
      rintro ⟨e, hv⟩
      obtain ⟨ha', hsum', hread', htag'⟩ := parts e hv
    · exact hsum hsum'
    · exact ha ha'
    · exact hread e hread' htag'

theorem Unreadable.declared (h : Unreadable bs) : declaredSize? bs = some bs.length := by
  cases h <;> assumption

theorem Unreadable.not_ended (h : Unreadable bs) : ¬Ended bs := by
  rintro (rfl | ⟨-, hruns, -⟩ | ⟨-, ha', hsum'⟩)
  · cases h.declared
  · exact not_runsOut h.declared hruns
  · cases h with
    | inadmissible _ ha => exact ha ha'
    | undecodable _ _ hsum _ => exact hsum' hsum

theorem ends_iff_of_runsOut (hruns : RunsOut bs) :
    Ended bs ∨ Unreadable bs ↔ ∀ i, 0 < i → ¬Starts (bs.drop i) := by
  constructor
  · rintro ((rfl | ⟨-, -, hbehind⟩ | ⟨hd, -, -⟩) | hu)
    · intro i _
      rw [List.drop_nil]
      exact not_starts_nil
    · exact hbehind
    · exact absurd hruns (not_runsOut hd)
    · exact absurd hruns (not_runsOut hu.declared)
  · intro hbehind
    by_cases hnil : bs = []
    · exact .inl (.inl hnil)
    · exact .inl (.inr (.cut hnil hruns hbehind))

theorem ends_iff_of_error {f : FrameFault} (h : decode bs = .error f) :
    Ended bs ∨ Unreadable bs ↔ declaredSize? bs = some bs.length := by
  constructor
  · rintro ((rfl | ⟨-, hruns, -⟩ | ⟨hd, -, -⟩) | hu)
    · cases h
    · exact absurd hruns (decode_error_iff.mp ⟨f, h⟩).1
    · exact hd
    · exact hu.declared
  · intro hd
    rcases refused_at_end_iff.mp ⟨⟨f, h⟩, hd⟩ with ⟨-, ha, hsum⟩ | hu
    · exact .inl (.inr (.damaged hd ha hsum))
    · exact .inr hu

/-- Where no verified frame is at the front, reading ends: with all of it torn if that is an end that a log
may have, and with a fault if not. -/
theorem scan_end (hs : ¬Starts bs) (offset : Nat) :
    (Ended bs ∨ Unreadable bs → scan offset bs = .ok (torn offset bs)) ∧
    (¬(Ended bs ∨ Unreadable bs) → ∃ f, scan offset bs = .error f) := by
  by_cases hnil : bs = []
  · subst hnil
    exact ⟨fun _ => scan_nil offset, fun h => absurd (.inl (.inl rfl)) h⟩
  by_cases hruns : RunsOut bs
  · rw [ends_iff_of_runsOut hruns]
    have ⟨hok, herror⟩ := scan_runsOut hnil hruns offset
    refine ⟨hok, fun h => ?_⟩
    obtain ⟨next, hnext⟩ := herror (by simpa using h)
    exact ⟨_, hnext⟩
  · obtain ⟨f, hf⟩ := decode_error_iff.mpr ⟨hruns, hs⟩
    rw [ends_iff_of_error hf, scan_refused hf]
    exact ⟨fun hd => if_pos hd, fun hd => ⟨_, if_neg hd⟩⟩

/-- What is read of a log is what the log consists of, up to an end with no verified frame at its front. -/
theorem exists_framed (bs : List UInt8) :
    ∃ sound rest es, bs = sound ++ rest ∧ Framed sound es ∧ ¬Starts rest := by
  by_cases hs : Starts bs
  · obtain ⟨f, e, hv, rest, rfl⟩ := hs
    have : rest.length < (f ++ rest).length := by
      have := length_of_verified hv
      rw [List.length_append]
      omega
    obtain ⟨sound, rest', es, rfl, hf, hs'⟩ := exists_framed rest
    exact ⟨f ++ sound, rest', e :: es, (List.append_assoc ..).symm, .cons hv hf, hs'⟩
  · exact ⟨[], bs, [], rfl, .nil, hs⟩
termination_by bs.length

theorem not_starts_of_ends (h : Ended bs ∨ Unreadable bs) : ¬Starts bs := by
  have refused : (∃ f, decode bs = .error f) → ¬Starts bs := fun h => (decode_error_iff.mp h).2
  rcases h with (rfl | ⟨-, hruns, -⟩ | ⟨hd, ha, hsum⟩) | hu
  · exact not_starts_nil
  · exact not_starts_of_runsOut hruns
  · exact refused (refused_at_end_iff.mpr (.inl ⟨hd, ha, hsum⟩)).1
  · exact refused (refused_at_end_iff.mpr (.inr hu)).1

theorem ofBytes_framed_append {es : List Entry} {sound rest : List UInt8} (hf : Framed sound es)
    (hs : ¬Starts rest) :
    (Ended rest ∨ Unreadable rest → ofBytes (sound ++ rest) = .ok ⟨es, sound.length, rest.length⟩) ∧
    (¬(Ended rest ∨ Unreadable rest) → ∃ f, ofBytes (sound ++ rest) = .error f) := by
  have ⟨hok, herror⟩ := scan_end hs (0 + sound.length)
  rw [ofBytes, scan_framed_append hf]
  constructor
  · intro hends
    rw [hok hends]
    simp [Except.map, torn]
  · intro hends
    obtain ⟨f, hf⟩ := herror hends
    exact ⟨f, by rw [hf]; rfl⟩

/-- A log is read exactly if it has an end that can be read, and then as what it consists of. -/
theorem ofBytes_eq_ok_iff :
    ofBytes bs = .ok r ↔ Divides Ended bs r ∨ Divides Unreadable bs r := by
  constructor
  · intro h
    obtain ⟨sound, rest, es, rfl, hf, hs⟩ := exists_framed bs
    have ⟨hok, herror⟩ := ofBytes_framed_append hf hs
    by_cases hends : Ended rest ∨ Unreadable rest
    · rw [hok hends] at h
      obtain rfl := Except.ok.inj h
      exact hends.imp (fun he => ⟨sound, rest, rfl, hf, he, rfl, rfl⟩)
        fun hu => ⟨sound, rest, rfl, hf, hu, rfl, rfl⟩
    · obtain ⟨f, hf⟩ := herror hends
      rw [h] at hf
      cases hf
  · have read : ∀ ends : List UInt8 → Prop, (∀ rest, ends rest → Ended rest ∨ Unreadable rest) →
        Divides ends bs r → ofBytes bs = .ok r := by
      rintro ends himp ⟨sound, rest, rfl, hf, he, hsound, htorn⟩
      have hends := himp rest he
      rw [(ofBytes_framed_append hf (not_starts_of_ends hends)).1 hends, ← hsound, ← htorn]
    rintro (h | h)
    · exact read Ended (fun _ => .inl) h
    · exact read Unreadable (fun _ => .inr) h

theorem not_divides_ended {r' : Replay} (h : Divides Unreadable bs r) : ¬Divides Ended bs r' := by
  intro h'
  have hr : r = r' := by
    have hr := ofBytes_eq_ok_iff.mpr (.inr h)
    rw [ofBytes_eq_ok_iff.mpr (.inl h')] at hr
    exact (Except.ok.inj hr).symm
  subst hr
  obtain ⟨sound, rest, hbs, -, hu, hlen, -⟩ := h
  obtain ⟨sound', rest', hbs', -, he, hlen', -⟩ := h'
  have hrest : rest = rest' := (List.append_inj (hbs.symm.trans hbs') (hlen.symm.trans hlen')).2
  exact hu.not_ended (hrest ▸ he)

/-- A log is read if and only if it is verified frames and then nothing or one torn frame, or a last frame
that no entry is read from; it is then read as these frames, and all behind them is torn. Any other log is
corrupt. The two kinds of end exclude each other, so a log is read as its grammar says unless it ends
with a frame of the second kind. -/
theorem replay_ok_iff_divides (durability : Durability) (file : List UInt8) (now : Nat) (m : Medium) :
    let answer := ((ofFile durability file now).replay m).1
    (∀ r, answer = .ok r ↔ Divides Ended file r ∨ Divides Unreadable file r) ∧
    ((∃ f, answer = .error (.corruption f)) ↔
      ∀ r, ¬Divides Ended file r ∧ ¬Divides Unreadable file r) ∧
    ∀ r, Divides Unreadable file r → ∀ r', ¬Divides Ended file r' := by
  intro answer
  refine ⟨fun r => replay_ofFile_eq_ok_iff.trans ofBytes_eq_ok_iff, ?_, fun r h r' => not_divides_ended h⟩
  rw [replay_ofFile_corrupt_iff]
  simp only [← not_or, ← ofBytes_eq_ok_iff]
  cases ofBytes file <;> simp

/-- A whole frame with a checksum that holds, of a kind of entry that does not exist. -/
def unknownKind : List UInt8 := [9, 0, 0, 0, 7, 6, 0, 0, 0, 209, 116, 105, 81]

theorem unknownKind_read_as_torn :
    ((ofFile .strict unknownKind 0).replay .sound).1 = .ok ⟨[], 0, 13⟩ ∧
      ∀ r, ¬Divides Ended unknownKind r := by
  have hsum : Crc32.checksum (content unknownKind) = stored unknownKind := by decide +kernel
  have hnone : Entry.ofBytes? (content unknownKind).tail = none := by decide +kernel
  have hu : Unreadable unknownKind := by
    refine .undecodable rfl ⟨by decide, by decide⟩ hsum fun e he => ?_
    rw [hnone] at he
    cases he
  have hd : Divides Unreadable unknownKind ⟨[], 0, 13⟩ :=
    ⟨[], unknownKind, rfl, .nil, hu, rfl, rfl⟩
  exact ⟨replay_ofFile_eq_ok_iff.mpr (ofBytes_eq_ok_iff.mpr (.inr hd)), fun r => not_divides_ended hd⟩

end Replay
end Log
end FlightTrace
