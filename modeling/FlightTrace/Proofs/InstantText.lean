import FlightTrace.Instant.Text
import FlightTrace.Proofs.Calendar
import FlightTrace.Proofs.Numeral

/-! The text of an instant reads back as the instant, leap seconds and years of any length included. Each
reader takes its part of the text and leaves the rest, so the parts are read one after the other. -/
namespace FlightTrace
namespace Instant

open Text

theorem toList_padded_ten (width n : Nat) :
    (padded 10 width n).toList = digitChars (paddedDigits 8 width n) := toList_padded 8 width n

theorem isBlank_digitChar : ∀ d < 10, isBlank (digitChar d) = false := by decide

theorem digitsValue_digitChars {ds : List Nat} (h : ∀ d ∈ ds, d < 10) :
    digitsValue (digitChars ds) = horner 10 0 ds := by
  suffices ∀ acc, (digitChars ds).foldl (fun n d => 10 * n + (d.toNat - 48)) acc = horner 10 acc ds by
    exact this 0
  induction ds with
  | nil => intro acc; rfl
  | cons d ds ih =>
    intro acc
    have hd := toNat_digitChar d (h d (by simp))
    have := ih (fun e he => h e (by simp [he])) (acc * 10 + d)
    simpa [digitChars, hd, Nat.mul_comm] using this

theorem spanDigits_digitChars {ds : List Nat} (h : ∀ d ∈ ds, d < 10) (rest : List Char) :
    spanDigits ds.length (digitChars ds ++ rest) = (digitChars ds, rest) := by
  have ht : (digitChars ds ++ rest).take ds.length = digitChars ds := by simp
  have hw : (digitChars ds ++ []).takeWhile isDigit = digitChars ds :=
    takeWhile_digitChars h (by simp [NoDigit])
  rw [List.append_nil] at hw
  simp [spanDigits, ht, hw]

/-- Fewer digits than might be taken end where no digit follows. -/
theorem spanDigits_of_le {ds : List Nat} (h : ∀ d ∈ ds, d < 10) {rest : List Char}
    (hr : NoDigit rest) {width : Nat} (hw : ds.length ≤ width) :
    spanDigits width (digitChars ds ++ rest) = (digitChars ds, rest) := by
  have hrest : NoDigit (rest.take (width - ds.length)) := by
    intro c hc
    rw [List.head?_take] at hc
    split at hc
    · simp at hc
    · exact hr c hc
  have ht : (digitChars ds ++ rest).take width = digitChars ds ++ rest.take (width - ds.length) := by
    rw [List.take_append, List.take_of_length_le (by simpa using hw), length_digitChars]
  simp [spanDigits, ht, takeWhile_digitChars h hrest]

theorem dropWhile_isBlank_digitChars {ds : List Nat} (h : ∀ d ∈ ds, d < 10) (hne : ds ≠ [])
    (rest : List Char) : (digitChars ds ++ rest).dropWhile isBlank = digitChars ds ++ rest := by
  cases ds with
  | nil => exact absurd rfl hne
  | cons d ds => simp [digitChars, isBlank_digitChar d (h d (by simp))]

theorem readField_digitChars {ds : List Nat} (h : ∀ d ∈ ds, d < 10) (hne : ds ≠ [])
    (rest : List Char) :
    readField ds.length (digitChars ds ++ rest) = some (horner 10 0 ds, rest) := by
  have he : (digitChars ds).isEmpty = false := by cases ds <;> simp_all [digitChars]
  simp only [readField, dropWhile_isBlank_digitChars h hne, spanDigits_digitChars h, he,
    digitsValue_digitChars h]
  rfl

theorem readField_padded {w n : Nat} (hw : 0 < w) (h : n < Nat.pow 10 w)
    (rest : List Char) :
    readField w ((padded 10 w n).toList ++ rest) = some (n, rest) := by
  have hl := length_paddedDigits (b := 8) hw h
  have hr := readField_digitChars (fun d hd => lt_of_mem_paddedDigits hd)
    (paddedDigits_ne_nil 8 w n) rest
  rw [hl, horner_paddedDigits 8] at hr
  rw [toList_padded_ten]
  exact hr

theorem spanDigits_padded {w n k : Nat} {rest : List Char} (hr : NoDigit rest)
    (hk : (padded 10 w n).toList.length ≤ k) :
    spanDigits k ((padded 10 w n).toList ++ rest) = ((padded 10 w n).toList, rest) := by
  rw [toList_padded_ten] at hk ⊢
  exact spanDigits_of_le (fun d hd => lt_of_mem_paddedDigits hd) hr (by simpa using hk)

theorem digitsValue_padded (w n : Nat) : digitsValue (padded 10 w n).toList = n := by
  rw [toList_padded_ten, digitsValue_digitChars fun d hd => lt_of_mem_paddedDigits hd]
  exact horner_paddedDigits 8 w n

theorem isEmpty_padded (w n : Nat) : (padded 10 w n).toList.isEmpty = false := by
  simp [toList_padded_ten, digitChars, paddedDigits_ne_nil]

theorem readYear_minus (n : Nat) {rest : List Char} (hr : NoDigit rest) :
    readYear ('-' :: ((padded 10 4 n).toList ++ rest)) = some (-(n : Int), rest) := by
  have hd := spanDigits_padded (w := 4) (n := n) hr
    (k := ((padded 10 4 n).toList ++ rest).length) (by simp)
  simp [readYear, isBlank, -List.length_append, hd, isEmpty_padded, digitsValue_padded]

theorem readYear_plus (n : Nat) {rest : List Char} (hr : NoDigit rest) :
    readYear ('+' :: ((padded 10 4 n).toList ++ rest)) = some ((n : Int), rest) := by
  have hd := spanDigits_padded (w := 4) (n := n) hr
    (k := ((padded 10 4 n).toList ++ rest).length) (by simp)
  simp [readYear, isBlank, -List.length_append, hd, isEmpty_padded, digitsValue_padded]

theorem padded_append_ne {w n : Nat} {c : Char} {rest cs : List Char} (hc : isDigit c = false) :
    (padded 10 w n).toList ++ rest ≠ c :: cs := by
  obtain ⟨d, ds, hds⟩ := List.exists_cons_of_ne_nil (paddedDigits_ne_nil 8 w n)
  have hlt : d < 10 := lt_of_mem_paddedDigits (hds ▸ List.mem_cons_self)
  rw [toList_padded_ten, hds]
  intro he
  have hdc : digitChar d = c := (List.cons.inj he).1
  rw [← hdc, isDigit_digitChar hlt] at hc
  cases hc

theorem readYear_yearText (y : Int) (rest : List Char) :
    readYear ((yearText y).toList ++ '-' :: rest) = some (y, '-' :: rest) := by
  have hr : NoDigit ('-' :: rest) := by simp [NoDigit, isDigit]
  unfold yearText
  split
  · rename_i h
    have hp : y.toNat < Nat.pow 10 4 := by
      have : Nat.pow 10 4 = 10000 := rfl
      omega
    have hf := readField_padded (w := 4) (by decide) hp ('-' :: rest)
    have hd := dropWhile_isBlank_digitChars (fun d hd => lt_of_mem_paddedDigits hd)
      (paddedDigits_ne_nil 8 4 y.toNat) ('-' :: rest)
    rw [← toList_padded_ten] at hd
    unfold readYear
    rw [hd]
    split
    · rename_i cs e
      exact absurd e (padded_append_ne (by decide))
    · rename_i cs e
      exact absurd e (padded_append_ne (by decide))
    · rw [hf]
      simp
      omega
  · rename_i h
    by_cases hy : y < 0
    · have hv : -(y.natAbs : Int) = y := by omega
      have hm := readYear_minus y.natAbs hr
      rw [hv] at hm
      simpa [hy] using hm
    · have hv : (y.natAbs : Int) = y := by omega
      have hm := readYear_plus y.natAbs hr
      rw [hv] at hm
      simpa [hy] using hm

theorem readMark_self {c : Char} (h : isBlank c = false) (rest : List Char) :
    readMark c (c :: rest) = some rest := by
  simp [readMark, h]

theorem readFraction_padded {w n : Nat} (hw : 0 < w) (hw₉ : w ≤ 9)
    (h : n < Nat.pow 10 w) {rest : List Char} (hr : NoDigit rest) :
    readFraction ('.' :: (padded 10 w n).toList ++ rest) =
      some (n * Nat.pow 10 (9 - w), rest) := by
  have hlen : (padded 10 w n).toList.length = w := by
    rw [toList_padded_ten, length_digitChars, length_paddedDigits (b := 8) hw h]
  have hs := spanDigits_padded (w := w) (n := n) hr (k := 9) (by omega)
  have hd : rest.dropWhile isDigit = rest := by
    cases rest with
    | nil => rfl
    | cons c cs => simp [hr c (by simp)]
  simp only [readFraction, List.cons_append, hs, isEmpty_padded, digitsValue_padded, hd, hlen]
  rfl

theorem readFraction_fractionText {n : Nat} (h : n < 1000000000) (rest : List Char) :
    readFraction ((fractionText n).toList ++ 'Z' :: rest) = some (n, 'Z' :: rest) := by
  have hr : NoDigit ('Z' :: rest) := by simp [NoDigit, isDigit]
  have p₃ : Nat.pow 10 3 = 1000 := rfl
  have p₆ : Nat.pow 10 6 = 1000000 := rfl
  have p₉ : Nat.pow 10 9 = 1000000000 := rfl
  unfold fractionText
  split
  · simp_all [readFraction]
  split
  · have hf := readFraction_padded (n := n / 1000000) (w := 3) (by decide) (by decide)
      (by omega) hr
    have hn : n / 1000000 * Nat.pow 10 (9 - 3) = n := by
      show n / 1000000 * Nat.pow 10 6 = n
      rw [p₆]
      omega
    rw [hn] at hf
    simpa using hf
  split
  · have hf := readFraction_padded (n := n / 1000) (w := 6) (by decide) (by decide)
      (by omega) hr
    have hn : n / 1000 * Nat.pow 10 (9 - 6) = n := by
      show n / 1000 * Nat.pow 10 3 = n
      rw [p₃]
      omega
    rw [hn] at hf
    simpa using hf
  · have hf := readFraction_padded (n := n) (w := 9) (by decide) (by decide) (by omega) hr
    have hn : n * Nat.pow 10 (9 - 9) = n := Nat.mul_one n
    rw [hn] at hf
    simpa using hf

theorem toList_text (t : Instant) : (text t).toList =
    (yearText (Calendar.ofDayNumber (t.second / 86400)).year).toList ++ '-' ::
    ((padded 10 2 (Calendar.ofDayNumber (t.second / 86400)).month).toList ++ '-' ::
    ((padded 10 2 (Calendar.ofDayNumber (t.second / 86400)).day).toList ++ 'T' ::
    ((padded 10 2 ((t.second % 86400).toNat / 3600)).toList ++ ':' ::
    ((padded 10 2 ((t.second % 86400).toNat / 60 % 60)).toList ++ ':' ::
    ((padded 10 2 ((t.second % 86400).toNat % 60 + t.nano / 1000000000)).toList ++
    ((fractionText (t.nano % 1000000000)).toList ++ ['Z'])))))) := by
  simp [text, toString]

theorem ofLocal?_parts (t : Instant) :
    ofLocal? (Calendar.ofDayNumber (t.second / 86400)) ((t.second % 86400).toNat / 3600)
      ((t.second % 86400).toNat / 60 % 60)
      ((t.second % 86400).toNat % 60 + t.nano / 1000000000) (t.nano % 1000000000) 0 = some t := by
  obtain ⟨h₁, h₂⟩ := t.in_range
  obtain ⟨hexists, -, -, hday⟩ := Calendar.exists_ofDayNumber (t.second / 86400)
  obtain ⟨hy₁, hy₂⟩ := Calendar.year_ofDayNumber (n := t.second / 86400) (by omega) (by omega)
  have hnano := t.nano_lt
  -- a leap second shows as second sixty, and only there
  have hsixty : (t.second % 86400).toNat % 60 + t.nano / 1000000000 = 60 ↔ 1000000000 ≤ t.nano := by
    omega
  have hclock : t.second / 86400 * 86400 + (((t.second % 86400).toNat / 3600 * 3600 +
      (t.second % 86400).toNat / 60 % 60 * 60 +
      min ((t.second % 86400).toNat % 60 + t.nano / 1000000000) 59 : Nat) : Int) - 0 = t.second := by
    omega
  have hn : (if (t.second % 86400).toNat % 60 + t.nano / 1000000000 = 60 then
      t.nano % 1000000000 + 1000000000 else t.nano % 1000000000) = t.nano := by
    split <;> omega
  unfold ofLocal?
  rw [if_pos ⟨hy₁, hy₂, hexists, by omega, by omega, by omega, by decide⟩]
  simp only [hday]
  rw [hn]
  have := ofParts?_second_nano t
  rw [← hclock] at this
  exact this

@[simp] theorem ofText?_text (t : Instant) : ofText? t.text = some t := by
  obtain ⟨h₁, h₂⟩ := t.in_range
  obtain ⟨-, hmonth, hday, -⟩ := Calendar.exists_ofDayNumber (t.second / 86400)
  have hnano := t.nano_lt
  have field : ∀ n < 100, ∀ rest, readField 2 ((padded 10 2 n).toList ++ rest) = some (n, rest) :=
    fun n h rest => readField_padded (by decide) h rest
  have dash : ∀ rest, readMark '-' ('-' :: rest) = some rest := readMark_self rfl
  have colon : ∀ rest, readMark ':' (':' :: rest) = some rest := readMark_self rfl
  have month := field (Calendar.ofDayNumber (t.second / 86400)).month (by omega)
  have day := field (Calendar.ofDayNumber (t.second / 86400)).day (by omega)
  have hour := field ((t.second % 86400).toNat / 3600) (by omega)
  have minute := field ((t.second % 86400).toNat / 60 % 60) (by omega)
  have second := field ((t.second % 86400).toNat % 60 + t.nano / 1000000000) (by omega)
  have fraction := readFraction_fractionText (n := t.nano % 1000000000) (by omega) []
  have offset : readOffset ['Z'] = some (0, []) := by simp [readOffset, isBlank]
  unfold ofText?
  rw [toList_text]
  simp only [ofChars?, readYear_yearText, dash, colon, month, day, hour,
    minute, second, fraction, offset, bind, Option.bind]
  exact ofLocal?_parts t

end Instant
end FlightTrace
