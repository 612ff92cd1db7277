import Mathlib
import FlightTrace.Text.Numeral

/-! Numerals read back as the numbers that they were written for. The digits of a number give it
again by Horner's rule, with or without zeros in front, and every digit is read as itself. What is
read as a numeral is made of digits, and written again with them if they fill the width. -/
namespace FlightTrace
namespace Text

/-- The number that digits stand for, the most significant first, behind a number already read. -/
def horner (base acc : Nat) (ds : List Nat) : Nat := ds.foldl (fun n d => n * base + d) acc

@[simp] theorem horner_nil (base acc : Nat) : horner base acc [] = acc := rfl

@[simp] theorem horner_cons (base acc d : Nat) (ds : List Nat) :
    horner base acc (d :: ds) = horner base (acc * base + d) ds := rfl

theorem horner_append (base acc : Nat) (ds es : List Nat) :
    horner base acc (ds ++ es) = horner base (horner base acc ds) es := by
  simp [horner]

theorem horner_replicate_zero (base n : Nat) (ds : List Nat) :
    horner base 0 (List.replicate n 0 ++ ds) = horner base 0 ds := by
  induction n with
  | zero => rfl
  | succ n ih => simpa [List.replicate_succ] using ih

theorem horner_digits (b n : Nat) : horner (b + 2) 0 (digits b n) = n := by
  fun_induction digits b n with
  | case1 n h => simp
  | case2 n h ih =>
    rw [horner_append, ih]
    simpa using Nat.div_add_mod' n (b + 2)

theorem lt_of_mem_digits {b n d : Nat} (h : d ∈ digits b n) : d < b + 2 := by
  fun_induction digits b n with
  | case1 n hn => simp_all
  | case2 n hn ih =>
    rcases List.mem_append.mp h with h | h
    · exact ih h
    · rw [List.mem_singleton.mp h]
      exact Nat.mod_lt _ (by omega)

theorem digits_ne_nil (b n : Nat) : digits b n ≠ [] := by
  fun_cases digits b n <;> simp

/-- Only the number zero has a zero in front. -/
theorem head?_digits {b n : Nat} (h : (digits b n).head? = some 0) : n = 0 := by
  fun_induction digits b n with
  | case1 n hn => simpa using h
  | case2 n hn ih =>
    obtain ⟨d, ds, hd⟩ := List.exists_cons_of_ne_nil (digits_ne_nil b (n / (b + 2)))
    have hz : n / (b + 2) = 0 := ih (by simpa [hd] using h)
    have := Nat.div_eq_zero_iff.mp hz
    omega

theorem length_digits_le {b n k : Nat} (hk : 0 < k) (h : n < Nat.pow (b + 2) k) :
    (digits b n).length ≤ k := by
  fun_induction digits b n generalizing k with
  | case1 n hn => exact hk
  | case2 n hn ih =>
    cases k with
    | zero => omega
    | succ k =>
      have hdiv : n / (b + 2) < Nat.pow (b + 2) k := (Nat.div_lt_iff_lt_mul (by omega)).mpr h
      cases k with
      | zero =>
        have : n < b + 2 := by simpa using h
        omega
      | succ k =>
        have := ih (by omega) hdiv
        simp
        omega

theorem digitValue?_digitChar : ∀ d < 36, digitValue? (digitChar d) = some d := by decide

theorem toNat_digitChar : ∀ d < 10, (digitChar d).toNat = 48 + d := by decide

theorem isDigit_digitChar {d : Nat} (h : d < 10) : isDigit (digitChar d) = true := by
  simp only [isDigit, toNat_digitChar d h, Bool.and_eq_true, decide_eq_true_eq]
  omega

theorem baseDigit?_digitChar {base d : Nat} (h : d < base) (hb : base ≤ 36) :
    baseDigit? base (digitChar d) = some d := by
  simp [baseDigit?, digitValue?_digitChar d (by omega), h]

theorem readDigits_map {base : Nat} (hb : base ≤ 36) {ds : List Nat} (h : ∀ d ∈ ds, d < base)
    (acc : Nat) : readDigits base acc (ds.map digitChar) = some (horner base acc ds) := by
  induction ds generalizing acc with
  | nil => rfl
  | cons d ds ih =>
    have hd := h d (by simp)
    have hds := ih fun e he => h e (by simp [he])
    simp [readDigits, baseDigit?_digitChar hd hb, hds]

theorem readNumeral_map {base : Nat} (hb : base ≤ 36) {ds : List Nat} (hne : ds ≠ [])
    (h : ∀ d ∈ ds, d < base) : readNumeral base (ds.map digitChar) = some (horner base 0 ds) := by
  cases ds with
  | nil => exact absurd rfl hne
  | cons d ds => exact readDigits_map hb h 0

theorem readNumeral_numeral {base : Nat} (h₂ : 2 ≤ base) (h₃₆ : base ≤ 36) (n : Nat) :
    readNumeral base (numeral base n) = some n := by
  obtain ⟨b, rfl⟩ : ∃ b, base = b + 2 := ⟨base - 2, by omega⟩
  have h := readNumeral_map h₃₆ (digits_ne_nil b n) fun d => lt_of_mem_digits
  rwa [horner_digits] at h

/-- The digits of a number behind as many zeros as a least width asks for. -/
def paddedDigits (b w n : Nat) : List Nat :=
  List.replicate (w - (digits b n).length) 0 ++ digits b n

theorem toList_padded (b w n : Nat) :
    (padded (b + 2) w n).toList = (paddedDigits b w n).map digitChar := by
  simp [padded, numeral, paddedDigits, show digitChar 0 = '0' from rfl]

@[simp] theorem horner_paddedDigits (b w n : Nat) :
    horner (b + 2) 0 (paddedDigits b w n) = n := by
  rw [paddedDigits, horner_replicate_zero, horner_digits]

theorem lt_of_mem_paddedDigits {b w n d : Nat} (h : d ∈ paddedDigits b w n) :
    d < b + 2 := by
  rcases List.mem_append.mp h with h | h
  · rw [(List.mem_replicate.mp h).2]
    omega
  · exact lt_of_mem_digits h

theorem paddedDigits_ne_nil (b w n : Nat) : paddedDigits b w n ≠ [] := by
  simp [paddedDigits, digits_ne_nil]

theorem length_paddedDigits {b w n : Nat} (hw : 0 < w) (h : n < Nat.pow (b + 2) w) :
    (paddedDigits b w n).length = w := by
  have := length_digits_le hw h
  simp [paddedDigits]
  omega

def digitChars (ds : List Nat) : List Char := ds.map digitChar

@[simp] theorem length_digitChars (ds : List Nat) : (digitChars ds).length = ds.length := by
  simp [digitChars]

def NoDigit (cs : List Char) : Prop := ∀ c ∈ cs.head?, isDigit c = false

theorem takeWhile_digitChars {ds : List Nat} (h : ∀ d ∈ ds, d < 10) {rest : List Char}
    (hr : NoDigit rest) : (digitChars ds ++ rest).takeWhile isDigit = digitChars ds := by
  rw [List.takeWhile_append_of_pos]
  · cases rest with
    | nil => simp
    | cons c cs => simp [hr c (by simp)]
  · intro c hc
    obtain ⟨d, hd, rfl⟩ := List.mem_map.mp hc
    exact isDigit_digitChar (h d hd)

theorem digitChar_eq_of_digitValue? {c : Char} {d : Nat} (h : digitValue? c = some d) (hd : d < 10) :
    c = digitChar d := by
  simp only [digitValue?, Bool.and_eq_true, decide_eq_true_eq] at h
  split at h
  · next hc =>
    obtain rfl : c.toNat - 48 = d := Option.some.inj h
    rw [digitChar, if_pos hd, Nat.add_sub_cancel' hc.1, Char.ofNat_toNat]
  · split at h
    · have hval := Option.some.inj h
      omega
    · split at h
      · have hval := Option.some.inj h
        omega
      · cases h

/-- Below a base of ten there is one character for a digit. -/
theorem baseDigit?_eq_some_iff {base d : Nat} (hb : base ≤ 10) {c : Char} :
    baseDigit? base c = some d ↔ d < base ∧ c = digitChar d := by
  constructor
  · intro h
    obtain ⟨hval, hlt⟩ := Option.filter_eq_some_iff.mp h
    have hd : d < base := of_decide_eq_true hlt
    exact ⟨hd, digitChar_eq_of_digitValue? hval (by omega)⟩
  · rintro ⟨hd, rfl⟩
    exact baseDigit?_digitChar hd (by omega)

theorem readDigits_eq_some_iff {base : Nat} (hb : base ≤ 10) {cs : List Char} {acc n : Nat} :
    readDigits base acc cs = some n ↔
      ∃ ds, (∀ d ∈ ds, d < base) ∧ cs = ds.map digitChar ∧ n = horner base acc ds := by
  constructor
  · intro h
    induction cs generalizing acc with
    | nil => exact ⟨[], by simp, rfl, (Option.some.inj h).symm⟩
    | cons c cs ih =>
      obtain ⟨d, hd, hrest⟩ := Option.bind_eq_some_iff.mp h
      obtain ⟨hlt, rfl⟩ := (baseDigit?_eq_some_iff hb).mp hd
      obtain ⟨ds, hds, rfl, rfl⟩ := ih hrest
      exact ⟨d :: ds, List.forall_mem_cons.mpr ⟨hlt, hds⟩, rfl, rfl⟩
  · rintro ⟨ds, hds, rfl, rfl⟩
    exact readDigits_map (by omega) hds acc

theorem readNumeral_eq_some_iff {base : Nat} (hb : base ≤ 10) {cs : List Char} {n : Nat} :
    readNumeral base cs = some n ↔
      ∃ ds, ds ≠ [] ∧ (∀ d ∈ ds, d < base) ∧ cs = ds.map digitChar ∧ n = horner base 0 ds := by
  cases cs with
  | nil => simp [readNumeral]
  | cons c cs =>
    rw [readNumeral, readDigits_eq_some_iff hb]
    · constructor
      · rintro ⟨ds, hds, hcs, hn⟩
        refine ⟨ds, ?_, hds, hcs, hn⟩
        rintro rfl
        cases hcs
      · rintro ⟨ds, -, hds, hcs, hn⟩
        exact ⟨ds, hds, hcs, hn⟩
    · exact List.cons_ne_nil c cs

theorem horner_eq_ofDigits (base : Nat) (ds : List Nat) : horner base 0 ds = Nat.ofDigits base ds.reverse := by
  induction ds using List.reverseRecOn with
  | nil => rfl
  | append_singleton ds d ih =>
    rw [horner_append, ih, List.reverse_concat, Nat.ofDigits_cons, Nat.add_comm, Nat.mul_comm]
    rfl

theorem horner_lt {b : Nat} {ds : List Nat} (h : ∀ d ∈ ds, d < b + 2) :
    horner (b + 2) 0 ds < (b + 2) ^ ds.length := by
  rw [horner_eq_ofDigits, ← List.length_reverse]
  exact Nat.ofDigits_lt_base_pow_length (by omega) fun d hd => h d (List.mem_reverse.mp hd)

theorem paddedDigits_horner {b w : Nat} {ds : List Nat} (hw : 0 < w) (hlen : ds.length = w)
    (h : ∀ d ∈ ds, d < b + 2) : paddedDigits b w (horner (b + 2) 0 ds) = ds := by
  have hlt : horner (b + 2) 0 ds < Nat.pow (b + 2) w := hlen ▸ horner_lt h
  have hvalue : Nat.ofDigits (b + 2) (paddedDigits b w (horner (b + 2) 0 ds)).reverse =
      Nat.ofDigits (b + 2) ds.reverse := by
    rw [← horner_eq_ofDigits, horner_paddedDigits, ← horner_eq_ofDigits]
  refine List.reverse_injective (Nat.ofDigits_inj_of_len_eq (by omega) ?_ ?_ ?_ hvalue)
  · rw [List.length_reverse, List.length_reverse, length_paddedDigits hw hlt, hlen]
  · exact fun d hd => lt_of_mem_paddedDigits (List.mem_reverse.mp hd)
  · exact fun d hd => h d (List.mem_reverse.mp hd)

end Text
end FlightTrace
