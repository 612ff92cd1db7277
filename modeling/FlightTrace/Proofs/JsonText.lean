import FlightTrace.Json.Reader
import FlightTrace.Json.Text
import FlightTrace.Proofs.Numeral

/-! The text of a document reads back as the document. This holds for documents that could come from a text,
with their fields in order, that hold no binary fraction and are not too deep. Each reader takes just the
text of its part, whatever comes after it. -/
namespace FlightTrace
namespace Json

open Text

theorem readHex_padded {n : Nat} (h : n < 256) : ∃ a b,
    (padded 16 2 n).toList = [a, b] ∧ readHex '0' '0' a b = some n := by
  have hlen : (paddedDigits 14 2 n).length = 2 := length_paddedDigits (by decide) (by simpa using h)
  obtain ⟨d, e, hde⟩ := List.length_eq_two.mp hlen
  have hlt : ∀ c ∈ [0, 0, d, e], c < 16 := by
    intro c hc
    rcases List.mem_cons.mp hc with rfl | hc
    · decide
    · rcases List.mem_cons.mp hc with rfl | hc
      · decide
      · exact lt_of_mem_paddedDigits (hde ▸ hc)
  have hread := readNumeral_map (by decide) (List.cons_ne_nil _ _) hlt
  have hvalue : horner 16 0 [0, 0, d, e] = n := by
    have hn := horner_paddedDigits 14 2 n
    rw [hde] at hn
    simpa using hn
  rw [hvalue] at hread
  exact ⟨digitChar d, digitChar e, by rw [toList_padded, hde]; rfl, hread⟩

theorem readStringChars_backslash {c : Char} {cs rest : List Char} (h : readEscape cs = some (c, rest)) :
    readStringChars ('\x5c' :: cs) = (readStringChars rest).map fun (xs, rest) => (c :: xs, rest) := by
  rw [readStringChars, if_neg (by decide), if_pos rfl]
  split
  · rename_i x rest' hx
    rw [h] at hx
    cases hx
    rfl
  · rename_i hx
    rw [h] at hx
    cases hx

theorem ofCodePoint?_toNat (c : Char) : ofCodePoint? c.toNat = some c := by
  have h : c.toNat.isValidChar := c.valid
  rw [ofCodePoint?, dif_pos h]
  exact congrArg some (Char.ext rfl)

theorem readEscape_control {c : Char} (h : c.toNat < 32) (rest : List Char) :
    readEscape ('u' :: '0' :: '0' :: ((padded 16 2 c.toNat).toList ++ rest)) = some (c, rest) := by
  obtain ⟨a, b, hab, hread⟩ := readHex_padded (n := c.toNat) (by omega)
  rw [hab]
  have hpoint : readCodePoint c.toNat rest = some (c, rest) := by
    simp only [readCodePoint]
    rw [if_neg (by omega), ofCodePoint?_toNat]
    rfl
  show (readHex '0' '0' a b).bind (readCodePoint · rest) = _
  rw [hread]
  exact hpoint

theorem readStringChars_escape (c : Char) (rest : List Char) : readStringChars (escape c ++ rest) =
    (readStringChars rest).map fun (xs, rest) => (c :: xs, rest) := by
  rw [escape]
  by_cases hmark : c = '\x22'
  · subst hmark
    exact readStringChars_backslash rfl
  by_cases hslash : c = '\x5c'
  · subst hslash
    exact readStringChars_backslash rfl
  by_cases hn : c = '\n'
  · subst hn
    exact readStringChars_backslash rfl
  by_cases hr : c = '\r'
  · subst hr
    exact readStringChars_backslash rfl
  by_cases ht : c = '\t'
  · subst ht
    exact readStringChars_backslash rfl
  by_cases hb : c = '\x08'
  · subst hb
    exact readStringChars_backslash rfl
  by_cases hf : c = '\x0c'
  · subst hf
    exact readStringChars_backslash rfl
  simp only [hmark, hslash, hn, hr, ht, hb, hf, decide_false, Bool.or_false, Bool.false_eq_true, if_false]
  by_cases hlow : c.toNat < 32
  · rw [if_pos hlow]
    exact readStringChars_backslash (readEscape_control hlow rest)
  · rw [if_neg hlow]
    show readStringChars (c :: rest) = _
    rw [readStringChars, if_neg hmark, if_neg hslash, if_neg hlow]

theorem readString_stringChars (s : String) (rest : List Char) :
    readString (stringChars s ++ rest) = some (s, rest) := by
  have key : ∀ cs : List Char,
      readStringChars (cs.flatMap escape ++ '\x22' :: rest) = some (cs, rest) := by
    intro cs
    induction cs with
    | nil =>
      show readStringChars ('\x22' :: rest) = _
      rw [readStringChars, if_pos rfl]
    | cons c cs ih =>
      rw [List.flatMap_cons, List.append_assoc, readStringChars_escape, ih]
      rfl
  have hchars : stringChars s ++ rest = '\x22' :: (s.toList.flatMap escape ++ '\x22' :: rest) := by
    simp [stringChars]
  rw [hchars]
  show (readStringChars _).map _ = _
  rw [key]
  simp

/-- Whether no number can go on in some characters. -/
def Stops (cs : List Char) : Prop :=
  ∀ c ∈ cs.head?, isDigit c = false ∧ c ≠ '.' ∧ c ≠ 'e' ∧ c ≠ 'E'

theorem Stops.readFraction {cs : List Char} (h : Stops cs) : readFraction cs = some (none, cs) := by
  cases cs with
  | nil => rfl
  | cons c cs =>
    have hc := (h c rfl).2.1
    rw [Json.readFraction]
    exact fun rest he => hc (List.cons.inj he).1

theorem Stops.readExponent {cs : List Char} (h : Stops cs) : readExponent cs = some (none, cs) := by
  cases cs with
  | nil => rfl
  | cons c cs =>
    have hc := (h c rfl).2.2
    simp [Json.readExponent, hc]

theorem exists_numeral (n : Nat) : ∃ d cs, numeral 10 n = digitChar d :: cs ∧ d < 10 := by
  obtain ⟨d, ds, hd⟩ := List.exists_cons_of_ne_nil (digits_ne_nil 8 n)
  refine ⟨d, ds.map digitChar, ?_, lt_of_mem_digits (hd ▸ List.mem_cons_self)⟩
  rw [numeral, hd]
  rfl

theorem numeral_ne_nil (n : Nat) : numeral 10 n ≠ [] := by
  obtain ⟨d, cs, h, -⟩ := exists_numeral n
  rw [h]
  exact List.cons_ne_nil _ cs

theorem length_numeral_of_zero {n : Nat} (h : (numeral 10 n).head? = some '0') :
    (numeral 10 n).length = 1 := by
  rw [numeral, List.head?_map, Option.map_eq_some_iff] at h
  obtain ⟨d, hd, hc⟩ := h
  have hlt : d < 10 := lt_of_mem_digits (List.mem_of_mem_head? hd)
  have hzero : d = 0 := by
    have := toNat_digitChar d hlt
    rw [hc] at this
    simpa using this.symm
  rw [hzero] at hd
  rw [head?_digits hd, numeral, digits]
  rfl

theorem takeWhile_numeral (n : Nat) {rest : List Char} (h : Stops rest) :
    (numeral 10 n ++ rest).takeWhile isDigit = numeral 10 n :=
  takeWhile_digitChars (fun _ => lt_of_mem_digits) fun c hc => (h c hc).1

theorem readNumber_chars {n : Number} (hreal : ∀ x, n ≠ .real x) {rest : List Char} (h : Stops rest) :
    readNumber (n.chars ++ rest) = some (n, rest) := by
  have hguard (k : Nat) : numeral 10 k ≠ [] ∧
      ((numeral 10 k).head? = some '0' → (numeral 10 k).length = 1) :=
    ⟨numeral_ne_nil k, length_numeral_of_zero⟩
  cases n with
  | natural k hk =>
    obtain ⟨d, ds, hcons, hlt⟩ := exists_numeral k
    have hdigit : isDigit (digitChar d) = true := isDigit_digitChar hlt
    have hminus : digitChar d ≠ '-' := by
      intro he
      rw [he] at hdigit
      cases hdigit
    have hmatch : ∀ cs, numeral 10 k ++ rest ≠ '-' :: cs := by
      intro cs he
      rw [hcons] at he
      exact hminus (List.cons.inj he).1
    simp only [readNumber, Number.chars, takeWhile_numeral k h, List.drop_left, guard, if_pos (hguard k)]
    simp [h.readFraction, h.readExponent, wholeNumber, readNumeral_numeral, hk]
  | negative k hk =>
    simp only [readNumber, Number.chars, List.cons_append, takeWhile_numeral k h, List.drop_left, guard,
      if_pos (hguard k)]
    simp [h.readFraction, h.readExponent, wholeNumber, readNumeral_numeral, hk]
  | real x => exact absurd rfl (hreal x)

def joined : List (List Char) → List Char
  | [] => []
  | [t] => t
  | t :: u :: ts => t ++ ',' :: joined (u :: ts)

theorem itemsChars_eq_joined (vs : List Json) : itemsChars vs = joined (vs.map chars) := by
  induction vs with
  | nil => rfl
  | cons v vs ih =>
    cases vs with
    | nil => rfl
    | cons w vs =>
      rw [itemsChars, ih]
      rfl

def fieldChars (f : String × Json) : List Char := stringChars f.1 ++ ':' :: chars f.2

theorem fieldsChars_eq_joined (fs : List (String × Json)) : fieldsChars fs = joined (fs.map fieldChars) := by
  induction fs with
  | nil => rfl
  | cons f fs ih =>
    cases fs with
    | nil => rfl
    | cons g fs =>
      rw [fieldsChars, ih]
      simp [joined, fieldChars]

section

variable {α : Type} {item : List Char → Option (α × List Char)} {text : α → List Char} {close : Char}

theorem readItems_joined (hcomma : close ≠ ',') (hspace : isSpace close = false) {as : List α}
    (hne : as ≠ []) (hitem : ∀ a ∈ as, ∀ c ∈ [',', close], ∀ rest,
      item (text a ++ c :: rest) = some (a, c :: rest))
    {n : Nat} (hn : as.length ≤ n) (rest : List Char) :
    readItems item close n (joined (as.map text) ++ close :: rest) = some (as, rest) := by
  induction as generalizing n with
  | nil => exact absurd rfl hne
  | cons a as ih =>
    obtain ⟨m, rfl⟩ : ∃ m, n = m + 1 := ⟨n - 1, by simp only [List.length_cons] at hn; omega⟩
    cases as with
    | nil =>
      have ha := hitem a List.mem_cons_self close (by simp) rest
      simp [readItems, joined, ha, hspace, hcomma]
    | cons b as =>
      have ha := hitem a List.mem_cons_self ',' (by simp)
      have hrest := ih (by simp) (fun c hc => hitem c (List.mem_cons_of_mem a hc)) (n := m)
        (by simpa using hn)
      simp only [List.map_cons] at hrest
      simp [readItems, joined, ha, hrest, show isSpace ',' = false from by decide]

theorem length_le_joined {as : List α} (h : ∀ a ∈ as, text a ≠ []) :
    as.length ≤ (joined (as.map text)).length := by
  induction as with
  | nil => exact Nat.le_refl _
  | cons a as ih =>
    have ha := List.length_pos_iff.mpr (h a List.mem_cons_self)
    cases as with
    | nil => exact ha
    | cons b as =>
      have ih := ih fun c hc => h c (List.mem_cons_of_mem a hc)
      simp only [List.map_cons, joined, List.length_append, List.length_cons] at ih ⊢
      omega

/-- A row whose items can be told from the closing mark by their first character is read as its items. -/
theorem readRow_joined (hcomma : close ≠ ',') (hspace : isSpace close = false) {as : List α}
    (hhead : ∀ a ∈ as, ∃ c cs, text a = c :: cs ∧ isSpace c = false ∧ c ≠ close)
    (hitem : ∀ a ∈ as, ∀ c ∈ [',', close], ∀ rest, item (text a ++ c :: rest) = some (a, c :: rest))
    (rest : List Char) : readRow item close (joined (as.map text) ++ close :: rest) = some (as, rest) := by
  cases as with
  | nil => simp [readRow, joined, hspace]
  | cons a as =>
    obtain ⟨c, cs, ha, hc, hclose⟩ := hhead a List.mem_cons_self
    have hfuel : (a :: as).length ≤ (joined ((a :: as).map text) ++ close :: rest).length := by
      have hlen : (a :: as).length ≤ (joined ((a :: as).map text)).length := by
        refine length_le_joined fun b hb => ?_
        obtain ⟨d, ds, hb, -⟩ := hhead b hb
        rw [hb]
        exact List.cons_ne_nil d ds
      rw [List.length_append]
      omega
    have hitems := readItems_joined hcomma hspace (List.cons_ne_nil a as) hitem hfuel rest
    obtain ⟨ds, hds⟩ : ∃ ds, joined ((a :: as).map text) ++ close :: rest = c :: ds := by
      cases as with
      | nil => exact ⟨cs ++ close :: rest, by simp [joined, ha]⟩
      | cons b as => exact ⟨_, by simp [joined, ha]; rfl⟩
    rw [hds] at hitems ⊢
    rw [readRow, List.dropWhile_cons_of_neg (by simp [hc])]
    simp only [if_neg hclose]
    exact hitems

end

mutual

def RealFree : Json → Prop
  | number n => ∀ x, n ≠ .real x
  | array items => RealFreeItems items
  | object fields => RealFreeFields fields
  | _ => True

def RealFreeItems : List Json → Prop
  | [] => True
  | v :: vs => RealFree v ∧ RealFreeItems vs

def RealFreeFields : List (String × Json) → Prop
  | [] => True
  | (_, v) :: fs => RealFree v ∧ RealFreeFields fs

end

theorem of_mem_items {vs : List Json} {v : Json} (hv : v ∈ vs) :
    (CanonicalItems vs → Canonical v) ∧ (RealFreeItems vs → RealFree v) ∧ depth v ≤ itemsDepth vs := by
  induction vs with
  | nil => cases hv
  | cons w vs ih =>
    rcases List.mem_cons.mp hv with rfl | hv
    · exact ⟨And.left, And.left, Nat.le_max_left _ _⟩
    · obtain ⟨hc, hr, hd⟩ := ih hv
      exact ⟨fun h => hc h.2, fun h => hr h.2, hd.trans (Nat.le_max_right _ _)⟩

theorem of_mem_fields {fs : List (String × Json)} {f : String × Json} (hf : f ∈ fs) :
    (CanonicalFields fs → Canonical f.2) ∧ (RealFreeFields fs → RealFree f.2) ∧
      depth f.2 ≤ fieldsDepth fs := by
  induction fs with
  | nil => cases hf
  | cons g fs ih =>
    rcases List.mem_cons.mp hf with rfl | hf
    · exact ⟨And.left, And.left, Nat.le_max_left _ _⟩
    · obtain ⟨hc, hr, hd⟩ := ih hf
      exact ⟨fun h => hc h.2, fun h => hr h.2, hd.trans (Nat.le_max_right _ _)⟩

theorem ofFields_of_ascending {fs : List (String × Json)}
    (h : fs.Pairwise fun a b => compare a.1 b.1 = .lt) : ofFields fs = object fs := by
  have hlast : ∀ {ps : List (String × Json)} {p : String × Json}, (∀ q ∈ ps, compare q.1 p.1 = .lt) →
      OrderedMap.insertList p.1 p.2 ps = ps ++ [p] := by
    intro ps p hp
    induction ps with
    | nil => rfl
    | cons q ps ih =>
      have hgt : compare p.1 q.1 = .gt := Std.OrientedCmp.gt_of_lt (hp q List.mem_cons_self)
      rw [OrderedMap.insertList, hgt, ih fun r hr => hp r (List.mem_cons_of_mem q hr)]
      rfl
  have key : ∀ ps fs : List (String × Json),
      ((ps ++ fs).Pairwise fun a b => compare a.1 b.1 = .lt) →
      fs.foldl (fun ps p => OrderedMap.insertList p.1 p.2 ps) ps = ps ++ fs := by
    intro ps fs
    induction fs generalizing ps with
    | nil => exact fun _ => (List.append_nil ps).symm
    | cons p fs ih =>
      intro hps
      have hp := (List.pairwise_append.mp hps).2.2
      rw [List.foldl_cons, hlast fun q hq => hp q hq p List.mem_cons_self, ih _ (by simpa using hps)]
      simp
  rw [ofFields, key [] fs h]
  rfl

theorem exists_head_chars (v : Json) (hr : RealFree v) :
    ∃ c cs, v.chars = c :: cs ∧ isSpace c = false ∧ c ≠ ']' ∧ c ≠ '\x7d' := by
  have hdigit : ∀ d < 10, isSpace (digitChar d) = false ∧ digitChar d ≠ ']' ∧ digitChar d ≠ '\x7d' := by
    decide
  cases v with
  | null => exact ⟨_, _, rfl, by decide, by decide, by decide⟩
  | bool b => cases b <;> exact ⟨_, _, rfl, by decide, by decide, by decide⟩
  | number n =>
    cases n with
    | natural n hn =>
      obtain ⟨d, ds, hds, hlt⟩ := exists_numeral n
      exact ⟨digitChar d, ds, hds, hdigit d hlt⟩
    | negative n hn => exact ⟨_, _, rfl, by decide, by decide, by decide⟩
    | real x => exact absurd rfl (hr x)
  | string s => exact ⟨_, _, rfl, by decide, by decide, by decide⟩
  | array vs => exact ⟨_, _, rfl, by decide, by decide, by decide⟩
  | object fs => exact ⟨_, _, rfl, by decide, by decide, by decide⟩

theorem stops_of_mem {c : Char} (h : c ∈ [',', ']', '\x7d']) (rest : List Char) : Stops (c :: rest) := by
  intro d hd
  cases hd
  simp only [List.mem_cons, List.not_mem_nil, or_false] at h
  rcases h with rfl | rfl | rfl <;> decide

theorem readField_fieldChars {value : List Char → Option (Json × List Char)} {f : String × Json}
    {rest : List Char} (h : value (chars f.2 ++ rest) = some (f.2, rest)) :
    readField value (fieldChars f ++ rest) = some (f, rest) := by
  have hchars : fieldChars f ++ rest = stringChars f.1 ++ ':' :: (chars f.2 ++ rest) := by simp [fieldChars]
  have hspace : (stringChars f.1 ++ ':' :: (chars f.2 ++ rest)).dropWhile isSpace =
      stringChars f.1 ++ ':' :: (chars f.2 ++ rest) := rfl
  simp only [readField, hchars, hspace, readString_stringChars]
  show (value (chars f.2 ++ rest)).bind _ = _
  rw [h]
  rfl

theorem readValue_number {m : Number} (hreal : ∀ x, m ≠ .real x) (n : Nat) {rest : List Char}
    (h : Stops rest) : readValue n (m.chars ++ rest) = some (number m, rest) := by
  obtain ⟨c, cs, hcs, hfirst⟩ : ∃ c cs, m.chars = c :: cs ∧ (isDigit c = true ∨ c = '-') := by
    cases m with
    | natural k hk =>
      obtain ⟨d, ds, hds, hlt⟩ := exists_numeral k
      exact ⟨digitChar d, ds, hds, .inl (isDigit_digitChar hlt)⟩
    | negative k hk => exact ⟨'-', numeral 10 k, rfl, .inr rfl⟩
    | real x => exact absurd rfl (hreal x)
  have hread := readNumber_chars hreal h
  have hspace : isSpace c = false := by
    obtain ⟨d, ds, hds, hd, -⟩ := exists_head_chars (number m) hreal
    have hcons : c :: cs = d :: ds := hcs ▸ hds
    rwa [(List.cons.inj hcons).1]
  rw [hcs, List.cons_append] at hread ⊢
  rw [readValue.eq_def, List.dropWhile_cons_of_neg (by simp [hspace])]
  have hother : ∀ d : Char, isDigit d = false → d ≠ '-' → c ≠ d := by
    rintro d hd hm rfl
    rcases hfirst with h | h
    · rw [hd] at h
      cases h
    · exact hm h
  -- None of the other values starts with a digit or a minus sign.
  split
  case h_7 =>
    rw [hread]
    rfl
  all_goals
    rename_i he
    exact absurd (List.cons.inj he).1 (hother _ (by decide) (by decide))

section

variable {n : Nat}

theorem readValue_array {vs : List Json} (hfree : ∀ v ∈ vs, RealFree v)
    (h : ∀ v ∈ vs, ∀ rest, Stops rest → readValue n (v.chars ++ rest) = some (v, rest)) (rest : List Char) :
    readValue (n + 1) ((array vs).chars ++ rest) = some (array vs, rest) := by
  have hhead : ∀ v ∈ vs, ∃ c cs, v.chars = c :: cs ∧ isSpace c = false ∧ c ≠ ']' := by
    intro v hv
    obtain ⟨c, cs, hcs, hs, hclose, -⟩ := exists_head_chars v (hfree v hv)
    exact ⟨c, cs, hcs, hs, hclose⟩
  have hitem : ∀ v ∈ vs, ∀ c ∈ [',', ']'], ∀ rest,
      readValue n (v.chars ++ c :: rest) = some (v, c :: rest) := by
    intro v hv c hc rest
    have hc : c ∈ [',', ']', '\x7d'] := by
      simp only [List.mem_cons, List.not_mem_nil, or_false] at hc ⊢
      exact hc.imp_right .inl
    exact h v hv _ (stops_of_mem hc rest)
  have hrow := readRow_joined (by decide) (by decide) hhead hitem rest
  have hchars : (array vs).chars ++ rest = '[' :: (joined (vs.map chars) ++ ']' :: rest) := by
    simp [chars, itemsChars_eq_joined]
  rw [hchars, readValue.eq_def]
  show (readRow (readValue n) ']' _).map _ = _
  rw [hrow]
  rfl

theorem readValue_object {fs : List (String × Json)} (hfs : fs.Pairwise fun a b => compare a.1 b.1 = .lt)
    (h : ∀ f ∈ fs, ∀ rest, Stops rest → readValue n (f.2.chars ++ rest) = some (f.2, rest))
    (rest : List Char) : readValue (n + 1) ((object fs).chars ++ rest) = some (object fs, rest) := by
  have hhead : ∀ f ∈ fs, ∃ c cs, fieldChars f = c :: cs ∧ isSpace c = false ∧ c ≠ '\x7d' :=
    fun f _ => ⟨_, _, rfl, by decide, by decide⟩
  have hitem : ∀ f ∈ fs, ∀ c ∈ [',', '\x7d'], ∀ rest,
      readField (readValue n) (fieldChars f ++ c :: rest) = some (f, c :: rest) := by
    intro f hf c hc rest
    have hc : c ∈ [',', ']', '\x7d'] := by
      simp only [List.mem_cons, List.not_mem_nil, or_false] at hc ⊢
      exact hc.imp_right .inr
    exact readField_fieldChars (h f hf _ (stops_of_mem hc rest))
  have hrow := readRow_joined (by decide) (by decide) hhead hitem rest
  have hchars : (object fs).chars ++ rest = '\x7b' :: (joined (fs.map fieldChars) ++ '\x7d' :: rest) := by
    simp [chars, fieldsChars_eq_joined]
  rw [hchars, readValue.eq_def]
  show (readRow (readField (readValue n)) '\x7d' _).map _ = _
  rw [hrow, ← ofFields_of_ascending hfs]
  rfl

end

/-- A document is read from the front of its text, if a reader may go as deep as it. -/
theorem readValue_chars {n : Nat} {v : Json} (hc : Canonical v) (hr : RealFree v) (hd : depth v ≤ n)
    {rest : List Char} (hrest : Stops rest) : readValue n (v.chars ++ rest) = some (v, rest) := by
  induction n using Nat.strongRecOn generalizing v rest with
  | ind n ih =>
    cases v with
    | null =>
      rw [readValue.eq_def]
      rfl
    | bool b =>
      cases b
      all_goals
        rw [readValue.eq_def]
        rfl
    | number m => exact readValue_number hr n hrest
    | string s =>
      rw [readValue.eq_def]
      show (readString (stringChars s ++ rest)).map _ = _
      rw [readString_stringChars]
      rfl
    | array vs =>
      obtain ⟨m, rfl⟩ : ∃ m, n = m + 1 := ⟨n - 1, by simp only [depth] at hd; omega⟩
      have hdepth : itemsDepth vs ≤ m := Nat.le_of_succ_le_succ hd
      refine readValue_array (fun v hv => (of_mem_items hv).2.1 hr) (fun v hv rest hrest => ?_) rest
      obtain ⟨hc', hr', hd'⟩ := of_mem_items hv
      exact ih m (Nat.lt_succ_self m) (hc' hc) (hr' hr) (hd'.trans hdepth) hrest
    | object fs =>
      obtain ⟨m, rfl⟩ : ∃ m, n = m + 1 := ⟨n - 1, by simp only [depth] at hd; omega⟩
      have hdepth : fieldsDepth fs ≤ m := Nat.le_of_succ_le_succ hd
      refine readValue_object hc.1 (fun f hf rest hrest => ?_) rest
      obtain ⟨hc', hr', hd'⟩ := of_mem_fields hf
      exact ih m (Nat.lt_succ_self m) (hc' hc.2) (hr' hr) (hd'.trans hdepth) hrest

/-- A document that its text keeps: one that could come from a text, with no binary fractions, and no deeper
than a reader goes. -/
structure Readable (v : Json) : Prop where
  canonical : Canonical v
  realFree : RealFree v
  shallow : depth v < 128

theorem Readable.ofText?_text {v : Json} (h : Readable v) : ofText? v.text = some v := by
  have hstops : Stops [] := fun c hc => absurd hc (Option.not_mem_none c)
  have hread := readValue_chars h.canonical h.realFree (Nat.le_of_lt_succ h.shallow) hstops
  rw [List.append_nil] at hread
  rw [ofText?, text, String.toList_ofList, ofChars?, hread]
  rfl

end Json
end FlightTrace
