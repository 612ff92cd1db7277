import FlightTrace.Observation
import FlightTrace.Proofs.Numeral

/-! What makes an observation a trace. The address must fit 24 bits, the source tag must be visible, and the squawk
must be of four octal digits once it is trimmed, or of three behind a plus sign. Of what is broken the first in this
order is named: address, squawk, source tag. -/
namespace FlightTrace

namespace Squawk

def Octal (cs : List Char) : Prop := ∀ c ∈ cs, '0' ≤ c ∧ c ≤ '7'

instance (cs : List Char) : Decidable (Octal cs) := List.decidableBAll (fun c => '0' ≤ c ∧ c ≤ '7') cs

def octalValue (cs : List Char) : Nat := Nat.ofDigits 8 (cs.reverse.map fun c => c.toNat - '0'.toNat)

/-- The text of a squawk as it should be. -/
def FourDigits (cs : List Char) : Prop := Octal cs ∧ cs.length = 4

instance (cs : List Char) : Decidable (FourDigits cs) := inferInstanceAs (Decidable (_ ∧ _))

/-- A plus sign in the place of the first digit. -/
def PlusAndThree (cs : List Char) : Prop := ∃ ds, cs = '+' :: ds ∧ Octal ds ∧ ds.length = 3

def Readable (cs : List Char) : Prop := FourDigits cs ∨ PlusAndThree cs

/-- A squawk that was read from some text: its value is that of the digits, and it is written as the text, but with a
zero for a plus sign. -/
def ReadFrom (cs : List Char) (c : Squawk) : Prop :=
  (FourDigits cs ∧ c.val = octalValue cs ∧ c.text.toList = cs) ∨
    ∃ ds, cs = '+' :: ds ∧ Octal ds ∧ ds.length = 3 ∧ c.val = octalValue ds ∧ c.text.toList = '0' :: ds

theorem octal_iff {cs : List Char} :
    Octal cs ↔ ∃ ds : List Nat, (∀ d ∈ ds, d < 8) ∧ cs = ds.map Text.digitChar := by
  constructor
  · intro h
    refine ⟨cs.map fun c => c.toNat - 48, fun d hd => ?_, ?_⟩
    · obtain ⟨c, hc, rfl⟩ := List.mem_map.mp hd
      have hle : c.toNat ≤ 55 := (h c hc).2
      omega
    · rw [List.map_map]
      refine (List.map_id cs).symm.trans (List.map_congr_left fun c hc => ?_)
      obtain ⟨hge, hle⟩ : 48 ≤ c.toNat ∧ c.toNat ≤ 55 := h c hc
      have hd : c.toNat - 48 < 10 := by omega
      rw [Function.comp_apply, Text.digitChar, if_pos hd, Nat.add_sub_cancel' hge, Char.ofNat_toNat, id]
  · rintro ⟨ds, hds, rfl⟩ c hc
    obtain ⟨d, hd, rfl⟩ := List.mem_map.mp hc
    have hlt := hds d hd
    have hn := Text.toNat_digitChar d (by omega)
    exact ⟨show 48 ≤ (Text.digitChar d).toNat by omega, show (Text.digitChar d).toNat ≤ 55 by omega⟩

theorem octalValue_map {ds : List Nat} (h : ∀ d ∈ ds, d < 8) :
    octalValue (ds.map Text.digitChar) = Text.horner 8 0 ds := by
  rw [octalValue, Text.horner_eq_ofDigits, ← List.map_reverse, List.map_map]
  refine congrArg _ ((List.map_congr_left fun d hd => ?_).trans (List.map_id _))
  have hlt := h d (List.mem_reverse.mp hd)
  rw [Function.comp_apply, Text.toNat_digitChar d (by omega)]
  exact Nat.add_sub_cancel_left 48 d

theorem octalValue_zero_cons (ds : List Char) : octalValue ('0' :: ds) = octalValue ds := by
  rw [octalValue, List.reverse_cons, List.map_append, List.map_singleton, Nat.sub_self, Nat.ofDigits_append_zero,
    octalValue]

theorem octalValue_lt {cs : List Char} (h : FourDigits cs) : octalValue cs < 65536 := by
  obtain ⟨ds, hds, rfl⟩ := octal_iff.mp h.1
  have hlt : Text.horner 8 0 ds < 8 ^ ds.length := Text.horner_lt hds
  rw [← List.length_map (f := Text.digitChar), h.2] at hlt
  rw [octalValue_map hds]
  omega

theorem text_of_fourDigits {cs : List Char} {c : Squawk} (h : FourDigits cs) (hv : c.val = octalValue cs) :
    c.text.toList = cs := by
  obtain ⟨ds, hds, rfl⟩ := octal_iff.mp h.1
  have hlen : ds.length = 4 := (List.length_map (f := Text.digitChar)).symm.trans h.2
  rw [text, hv, octalValue_map hds, Text.toList_padded, Text.paddedDigits_horner (by decide) hlen hds]

theorem readSigned_eq_some_iff {cs : List Char} {n : Nat} : Text.readSigned 8 cs = some n ↔
    (cs ≠ [] ∧ Octal cs ∧ n = octalValue cs) ∨ ∃ ds, cs = '+' :: ds ∧ ds ≠ [] ∧ Octal ds ∧ n = octalValue ds := by
  have hnumeral (cs : List Char) : Text.readNumeral 8 cs = some n ↔ cs ≠ [] ∧ Octal cs ∧ n = octalValue cs := by
    rw [Text.readNumeral_eq_some_iff (by decide)]
    constructor
    · rintro ⟨ds, hne, hds, rfl, rfl⟩
      exact ⟨by simpa using hne, octal_iff.mpr ⟨ds, hds, rfl⟩, (octalValue_map hds).symm⟩
    · rintro ⟨hne, ho, rfl⟩
      obtain ⟨ds, hds, rfl⟩ := octal_iff.mp ho
      exact ⟨ds, by simpa using hne, hds, rfl, octalValue_map hds⟩
  have hplus (ds : List Char) : ¬Octal ('+' :: ds) := fun h => absurd (h '+' List.mem_cons_self) (by decide)
  fun_cases Text.readSigned 8 cs with
  | case1 ds =>
    rw [hnumeral]
    constructor
    · exact fun h => .inr ⟨ds, rfl, h⟩
    · rintro (⟨-, ho, -⟩ | ⟨_, he, h⟩)
      · exact absurd ho (hplus ds)
      · cases he
        exact h
  | case2 _ hne =>
    rw [hnumeral]
    constructor
    · exact .inl
    · rintro (h | ⟨ds, rfl, -⟩)
      · exact h
      · exact absurd rfl (hne ds)

theorem utf8Len_of_octal {cs : List Char} (h : Octal cs) : String.utf8Len cs = cs.length := by
  induction cs with
  | nil => rfl
  | cons c cs ih =>
    obtain ⟨hc, hcs⟩ := List.forall_mem_cons.mp h
    have hone : c.utf8Size = 1 := by
      have hle : c.toNat ≤ 55 := hc.2
      exact Char.utf8Size_eq_one_iff.mpr (show c.toNat ≤ 127 by omega)
    rw [String.utf8Len_cons, ih hcs, hone, List.length_cons]

theorem readSigned_fourBytes_iff {cs : List Char} {n : Nat} :
    (String.utf8Len cs = 4 ∧ Text.readSigned 8 cs = some n) ↔ (FourDigits cs ∧ n = octalValue cs) ∨
      ∃ ds, cs = '+' :: ds ∧ Octal ds ∧ ds.length = 3 ∧ n = octalValue ds := by
  rw [readSigned_eq_some_iff]
  have hplus (ds : List Char) : String.utf8Len ('+' :: ds) = String.utf8Len ds + 1 := rfl
  constructor
  · rintro ⟨hsize, ⟨-, ho, rfl⟩ | ⟨ds, rfl, -, ho, rfl⟩⟩
    · exact .inl ⟨⟨ho, (utf8Len_of_octal ho).symm.trans hsize⟩, rfl⟩
    · rw [hplus, utf8Len_of_octal ho] at hsize
      exact .inr ⟨ds, rfl, ho, Nat.succ.inj hsize, rfl⟩
  · rintro (⟨⟨ho, hlen⟩, rfl⟩ | ⟨ds, rfl, ho, hlen, rfl⟩)
    · have hne : cs ≠ [] := List.ne_nil_of_length_pos (by omega)
      exact ⟨(utf8Len_of_octal ho).trans hlen, .inl ⟨hne, ho, rfl⟩⟩
    · have hne : ds ≠ [] := List.ne_nil_of_length_pos (by omega)
      exact ⟨by rw [hplus, utf8Len_of_octal ho, hlen], .inr ⟨ds, rfl, hne, ho, rfl⟩⟩

/-- The digits behind a plus sign read as if a zero stood in its place. -/
theorem zero_cons_fourDigits {ds : List Char} (ho : Octal ds) (hlen : ds.length = 3) : FourDigits ('0' :: ds) :=
  ⟨List.forall_mem_cons.mpr ⟨by decide, ho⟩, congrArg (· + 1) hlen⟩

theorem ofText_cases (s : String) :
    (Readable (Text.trimChars s.toList) ∧ ∃ c, ofText s = .ok c ∧ ReadFrom (Text.trimChars s.toList) c) ∨
    (¬Readable (Text.trimChars s.toList) ∧ ofText s = .error (.unreadableSquawk (Text.trim s))) := by
  have hlist : (Text.trim s).toList = Text.trimChars s.toList := String.toList_ofList
  have hsize : (Text.trim s).utf8ByteSize = String.utf8Len (Text.trimChars s.toList) := String.utf8ByteSize_ofList _
  rw [ofText, hlist, hsize]
  generalize Text.trimChars s.toList = cs
  by_cases h : ∃ n, String.utf8Len cs = 4 ∧ Text.readSigned 8 cs = some n
  · obtain ⟨n, hfour, hread⟩ := h
    rw [if_pos hfour, hread]
    rcases readSigned_fourBytes_iff.mp ⟨hfour, hread⟩ with ⟨hdigits, rfl⟩ | ⟨ds, rfl, ho, hlen, rfl⟩
    · simp only [Option.bind_some, ofNat?, dif_pos (octalValue_lt hdigits)]
      exact .inl ⟨.inl hdigits, _, rfl, .inl ⟨hdigits, rfl, text_of_fourDigits hdigits rfl⟩⟩
    · have hzero := zero_cons_fourDigits ho hlen
      rw [← octalValue_zero_cons]
      simp only [Option.bind_some, ofNat?, dif_pos (octalValue_lt hzero)]
      exact .inl ⟨.inr ⟨ds, rfl, ho, hlen⟩, _, rfl,
        .inr ⟨ds, rfl, ho, hlen, octalValue_zero_cons ds, text_of_fourDigits hzero rfl⟩⟩
  · refine .inr ⟨?_, ?_⟩
    · rintro (hdigits | ⟨ds, rfl, ho, hlen⟩)
      · exact h ⟨_, readSigned_fourBytes_iff.mpr (.inl ⟨hdigits, rfl⟩)⟩
      · exact h ⟨_, readSigned_fourBytes_iff.mpr (.inr ⟨ds, rfl, ho, hlen, rfl⟩)⟩
    · by_cases hfour : String.utf8Len cs = 4
      · have hnone : Text.readSigned 8 cs = none :=
          Option.eq_none_iff_forall_ne_some.mpr fun n hn => h ⟨n, hfour, hn⟩
        rw [if_pos hfour, hnone]
        rfl
      · rw [if_neg hfour]

end Squawk

theorem Address.ofNat_cases (n : Nat) : (n ≤ Address.max ∧ ∃ a, Address.ofNat n = .ok a ∧ a.val = n) ∨
    (Address.max < n ∧ Address.ofNat n = .error (.wideAddress n)) := by
  rw [ofNat, ofNat?]
  by_cases h : n ≤ Address.max
  · rw [dif_pos h]
    exact .inl ⟨h, _, rfl, rfl⟩
  · rw [dif_neg h]
    exact .inr ⟨Nat.not_le.mp h, rfl⟩

def SourceTag.Visible (c : Char) : Prop := 0x21 ≤ c.toNat ∧ c.toNat ≤ 0x7e

theorem SourceTag.ofChar_cases (c : Char) : (Visible c ∧ ∃ t, SourceTag.ofChar c = .ok t ∧ t.char = c) ∨
    (¬Visible c ∧ SourceTag.ofChar c = .error (.invisibleSourceTag c)) := by
  rw [ofChar, ofChar?]
  by_cases h : 0x21 ≤ c.toNat ∧ c.toNat ≤ 0x7e
  · rw [dif_pos h]
    exact .inl ⟨h, _, rfl, rfl⟩
  · rw [dif_neg h]
    exact .inr ⟨h, rfl⟩

theorem Callsign.text_ofText? (s : String) :
    (Callsign.ofText? s).map Callsign.text = (some (Text.trim s)).filter (· ≠ "") := by
  rw [ofText?]
  by_cases h : Text.trim s = "" <;> simp [h, Option.filter]

namespace Observation

structure Acceptable (o : Observation) : Prop where
  address : o.address.val ≤ Address.max
  squawk : ∀ s ∈ o.squawk, Squawk.Readable (Text.trimChars s.toList)
  source : ∀ c ∈ o.source, SourceTag.Visible c

/-- A trace that tells what an observation tells. A blank callsign tells nothing. -/
structure Yields (o : Observation) (t : Trace) : Prop where
  time : t.time = o.time
  address : t.address.val = o.address.val
  callsign : t.callsign.map Callsign.text = (o.callsign.map Text.trim).filter (· ≠ "")
  squawk : Option.Rel (fun s c => Squawk.ReadFrom (Text.trimChars s.toList) c) o.squawk t.squawk
  source : Option.Rel (fun c g => g.char = c) o.source t.source

inductive Faulty (o : Observation) : RecordFault → Prop where
  | address (h : Address.max < o.address.val) : Faulty o (.wideAddress o.address.val)
  | squawk {s : String} (ha : o.address.val ≤ Address.max) (hs : s ∈ o.squawk)
      (h : ¬Squawk.Readable (Text.trimChars s.toList)) : Faulty o (.unreadableSquawk (Text.trim s))
  | source {c : Char} (ha : o.address.val ≤ Address.max)
      (hq : ∀ s ∈ o.squawk, Squawk.Readable (Text.trimChars s.toList)) (hc : c ∈ o.source)
      (h : ¬SourceTag.Visible c) : Faulty o (.invisibleSourceTag c)

theorem Faulty.not_acceptable {o : Observation} {f : RecordFault} (h : o.Faulty f) : ¬o.Acceptable := by
  intro ha
  cases h with
  | address h => exact absurd ha.address (Nat.not_le.mpr h)
  | squawk _ hs h => exact h (ha.squawk _ hs)
  | source _ _ hc h => exact h (ha.source _ hc)

theorem optionally_cases {ε α β : Type} {f : α → Except ε β} {P : α → Prop} {R : α → β → Prop} {fault : α → ε}
    (h : ∀ a, (P a ∧ ∃ b, f a = .ok b ∧ R a b) ∨ (¬P a ∧ f a = .error (fault a))) (x : Option α) :
    ((∀ a ∈ x, P a) ∧ ∃ y, optionally f x = .ok y ∧ Option.Rel R x y) ∨
      ∃ a ∈ x, ¬P a ∧ optionally f x = .error (fault a) := by
  cases x with
  | none => exact .inl ⟨fun a ha => absurd ha (Option.not_mem_none a), none, rfl, .none⟩
  | some a =>
    rcases h a with ⟨hp, b, hb, hr⟩ | ⟨hp, he⟩
    · refine .inl ⟨fun _ ha => Option.some.inj ha ▸ hp, some b, ?_, .some hr⟩
      rw [optionally, hb]
      rfl
    · refine .inr ⟨a, rfl, hp, ?_⟩
      rw [optionally, he]
      rfl

/-- An observation becomes a trace just if its address fits, its squawk can be read and its source tag is visible.
The trace has its time and what was read; of an observation that is refused the first fault is named. -/
theorem toTrace_accepts_readable (o : Observation) :
    (o.Acceptable ∧ ∃ t, o.toTrace = .ok t ∧ o.Yields t) ∨
      (¬o.Acceptable ∧ ∃ f, o.toTrace = .error f ∧ o.Faulty f) := by
  rcases Address.ofNat_cases o.address.val with ⟨ha, a, hread, hval⟩ | ⟨ha, hread⟩
  · rcases optionally_cases Squawk.ofText_cases o.squawk with ⟨hq, c, hc, hrel⟩ | ⟨s, hs, hq, hc⟩
    · rcases optionally_cases SourceTag.ofChar_cases o.source with ⟨hv, g, hg, hsource⟩ | ⟨x, hx, hv, hg⟩
      · let t : Trace := ⟨o.time, a, o.callsign.bind Callsign.ofText?, c, g⟩
        refine .inl ⟨⟨ha, hq, hv⟩, t, ?_, rfl, hval, ?_, hrel, hsource⟩
        · rw [toTrace, hread, hc, hg]
          rfl
        · simp only [t]
          cases o.callsign with
          | none => rfl
          | some s => exact Callsign.text_ofText? s
      · have hf : o.Faulty (.invisibleSourceTag x) := .source ha hq hx hv
        refine .inr ⟨hf.not_acceptable, _, ?_, hf⟩
        rw [toTrace, hread, hc, hg]
        rfl
    · have hf : o.Faulty (.unreadableSquawk (Text.trim s)) := .squawk ha hs hq
      refine .inr ⟨hf.not_acceptable, _, ?_, hf⟩
      rw [toTrace, hread, hc]
      rfl
  · have hf : o.Faulty (.wideAddress o.address.val) := .address ha
    refine .inr ⟨hf.not_acceptable, _, ?_, hf⟩
    rw [toTrace, hread]
    rfl

/-- A plus sign passes for a digit, and is shown as a zero. -/
theorem plus_sign_is_accepted :
    ¬Squawk.FourDigits (Text.trimChars "+777".toList) ∧
      ({ time := default, address := ⟨5, by decide⟩, squawk := some "+777" } : Observation).toTrace =
        .ok { time := default, address := ⟨5, by decide⟩, squawk := some ⟨0o777, by decide⟩ } ∧
      Squawk.text ⟨0o777, by decide⟩ = "0777" := by
  have htext : (Squawk.text ⟨0o777, by decide⟩).toList = "0777".toList :=
    Squawk.text_of_fourDigits (by decide) (by decide)
  exact ⟨by decide, rfl, String.toList_inj.mp htext⟩

end Observation
end FlightTrace
