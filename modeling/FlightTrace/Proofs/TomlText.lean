import FlightTrace.Proofs.Numeral
import FlightTrace.Toml.Document

/-! Reading what is written. A file of lines that give plain text or whole numbers to different bare names is read as
the table of these names and values. A number is tried as a date and as a fraction before it is read as what it is,
so it is shown that its digits are refused there. -/
namespace FlightTrace

theorem lookup_cons_eq_ite {κ β : Type} [BEq κ] [LawfulBEq κ] [DecidableEq κ] (k j : κ) (v : β) (l : List (κ × β)) :
    ((k, v) :: l).lookup j = if j = k then some v else l.lookup j := by
  rw [List.lookup_cons]
  by_cases h : j = k
  · rw [if_pos h, beq_iff_eq.mpr h]
  · rw [if_neg h, beq_eq_false_iff_ne.mpr h]

namespace Toml

namespace Reader

variable {α β : Type} {cs rest : List Char} {c : Char} {p : Char → Bool}

@[simp] theorem bind_apply (r : Reader α) (f : α → Reader β) (cs : List Char) :
    (r >>= f) cs = (r cs).bind fun x => f x.1 x.2 := rfl

@[simp] theorem pure_apply (a : α) (cs : List Char) : (pure a : Reader α) cs = some (a, cs) := rfl

@[simp] theorem orElse_apply (r r' : Reader α) (cs : List Char) : (r <|> r') cs = (r cs).or (r' cs) := by
  cases h : r cs <;> simp [HOrElse.hOrElse, OrElse.orElse, Alternative.orElse, StateT.orElse, h, Option.orElse]

@[simp] theorem map_apply (g : α → β) (r : Reader α) (cs : List Char) :
    (g <$> r) cs = (r cs).map fun x => (g x.1, x.2) := by
  cases h : r cs <;> simp [Functor.map, StateT.map, h, bind, Option.bind, pure]

@[simp] theorem lift_apply (o : Option α) (cs : List Char) : (liftM o : Reader α) cs = o.map (·, cs) := by
  cases o <;> rfl

@[simp] theorem guard_apply (q : Prop) [Decidable q] (cs : List Char) :
    (guard q : Reader Unit) cs = if q then some ((), cs) else none := by
  by_cases h : q <;> simp [guard, h, failure, pure, StateT.pure, StateT.failure]

theorem maybe_of_none {r : Reader α} (h : r cs = none) : r.maybe cs = some (none, cs) := by
  simp [maybe, h]

theorem maybe_of_some {r : Reader α} {a : α} (h : r cs = some (a, rest)) : r.maybe cs = some (some a, rest) := by
  simp [maybe, h]

@[simp] theorem mark_apply (c d : Char) (cs : List Char) :
    mark c (d :: cs) = if d = c then some ((), cs) else none := by
  by_cases h : d = c <;> simp [mark, one, h]

theorem mark_of_ne (h : cs.head? ≠ some c) : mark c cs = none := by
  cases cs with
  | nil => rfl
  | cons d cs =>
    have hd : d ≠ c := by simpa using h
    simp [hd]

theorem many_append (h : ∀ c ∈ cs, p c = true) (hrest : ∀ c ∈ rest.head?, p c = false) :
    many p (cs ++ rest) = some (cs, rest) := by
  have hnone : rest.takeWhile p = [] ∧ rest.dropWhile p = rest := by
    cases rest with
    | nil => exact ⟨rfl, rfl⟩
    | cons c rest => simp [hrest c rfl]
  rw [many, List.takeWhile_append_of_pos h, List.dropWhile_append_of_pos h, hnone.1, hnone.2, List.append_nil]

theorem word_of_ne {c : Char} {w : List Char} (h : cs.head? ≠ some c) : word (c :: w) cs = none := by
  have hmark : mark c cs = none := mark_of_ne h
  simp [word, hmark]

end Reader

namespace Quoted

/-- Whether a character means itself between double quotes. -/
def isOrdinary (c : Char) : Bool := isPlain c && c ≠ '\x22' && c ≠ '\x5c'

theorem isOrdinary_iff {c : Char} : isOrdinary c = true ↔ isPlain c = true ∧ c ≠ '\x22' ∧ c ≠ '\x5c' := by
  simp only [isOrdinary, Bool.and_eq_true, decide_eq_true_eq, and_assoc]

theorem readBasicChars_append {cs rest : List Char} (h : ∀ c ∈ cs, isOrdinary c = true) :
    readBasicChars (cs ++ '\x22' :: rest) = some (cs, rest) := by
  induction cs with
  | nil => simp [readBasicChars]
  | cons c cs ih =>
    obtain ⟨hplain, hquote, hback⟩ := isOrdinary_iff.mp (h c List.mem_cons_self)
    rw [List.cons_append, readBasicChars, if_neg hquote, if_neg hback, if_pos hplain,
      ih fun d hd => h d (List.mem_cons_of_mem _ hd)]
    rfl

theorem text_append {s : String} (hne : s.toList ≠ [])
    (h : ∀ c ∈ s.toList, isOrdinary c = true) (rest : List Char) :
    text ('\x22' :: s.toList ++ '\x22' :: rest) = some (s, rest) := by
  have hread : readBasicChars (s.toList ++ '\x22' :: rest) = some (s.toList, rest) := readBasicChars_append h
  have hbasic : basic ('\x22' :: s.toList ++ '\x22' :: rest) = some (s, rest) := by
    rw [basic, Reader.bind_apply, List.cons_append, Reader.mark_apply, if_pos rfl]
    simp only [Option.bind_some, Reader.bind_apply, hread, Reader.pure_apply, String.ofList_toList]
  -- a second quote would have started the long form
  obtain ⟨c, cs, hs⟩ := List.exists_cons_of_ne_nil hne
  have hc : c ≠ '\x22' := (isOrdinary_iff.mp (h c (hs ▸ List.mem_cons_self))).2.1
  have hlong : long '\x22' ('\x22' :: s.toList ++ '\x22' :: rest) = none := by
    rw [hs]
    simp [long, Reader.word, hc]
  have hlong' : long '\x27' ('\x22' :: s.toList ++ '\x22' :: rest) = none := by
    simp [long, Reader.word]
  simp only [text, short, Reader.orElse_apply, hlong, hlong', hbasic, Option.none_or, Option.some_or]

end Quoted

theorem value_of_simple {cs rest : List Char} {x : Value} (h : simpleValue cs = some (x, rest)) (depth : Nat) :
    value depth cs = some (x, rest) := by
  cases depth with
  | zero => exact h
  | succ depth => simp only [value, Reader.orElse_apply, h, Option.some_or]

section

variable {ds : List Char} (hdigits : ∀ d ∈ ds, Text.isDigit d = true) (rest : List Char)
include hdigits

theorem mark_digits {c : Char} (hc : Text.isDigit c = false) (hline : c ≠ '\n') :
    Reader.mark c (ds ++ '\n' :: rest) = none := by
  refine Reader.mark_of_ne ?_
  cases ds with
  | nil => simpa using Ne.symm hline
  | cons d ds =>
    have hd := hdigits d List.mem_cons_self
    rintro h
    obtain rfl : d = c := by simpa using h
    rw [hc] at hd
    cases hd

theorem spanDigits_append : spanDigits Text.isDigit (ds ++ '\n' :: rest) = (ds, '\n' :: rest) := by
  induction ds with
  | nil => rfl
  | cons d ds ih =>
    rw [List.cons_append, spanDigits, if_pos (hdigits d List.mem_cons_self),
      ih fun e he => hdigits e (List.mem_cons_of_mem _ he)]

/-- However many digits are taken, digits are left up to the end of the line. -/
theorem exists_of_exactly {n : Nat} {xs cs : List Char}
    (h : Reader.exactly Text.isDigit n (ds ++ '\n' :: rest) = some (xs, cs)) :
    ∃ ds', (∀ d ∈ ds', Text.isDigit d = true) ∧ cs = ds' ++ '\n' :: rest := by
  induction n generalizing ds xs with
  | zero =>
    cases h
    exact ⟨ds, hdigits, rfl⟩
  | succ n ih =>
    cases ds with
    | nil => cases h
    | cons d ds =>
      have hd := hdigits d List.mem_cons_self
      simp only [Reader.exactly, Reader.bind_apply, List.cons_append, Reader.one, hd, if_true, Option.bind_some,
        Reader.pure_apply, Option.bind_eq_some_iff] at h
      obtain ⟨x, hx, h⟩ := h
      cases h
      exact ih (fun e he => hdigits e (List.mem_cons_of_mem _ he)) hx

theorem exists_of_fixed {width limit n : Nat} {cs : List Char}
    (h : fixed width limit (ds ++ '\n' :: rest) = some (n, cs)) :
    ∃ ds', (∀ d ∈ ds', Text.isDigit d = true) ∧ cs = ds' ++ '\n' :: rest := by
  simp only [fixed, Reader.bind_apply, Option.bind_eq_some_iff, Reader.lift_apply, Option.map_eq_some_iff,
    Reader.guard_apply] at h
  obtain ⟨⟨xs, cs'⟩, hx, _, ⟨k, -, rfl⟩, _, hguard, hpure⟩ := h
  split at hguard
  · cases hguard
    cases hpure
    exact exists_of_exactly hdigits rest hx
  · cases hguard

/-- The digits do not end where a date or a time of day has a mark. -/
theorem fixed_mark {α : Type} {c : Char} (hc : Text.isDigit c = false) (hline : c ≠ '\n') (width limit : Nat)
    (k : Nat → Unit → Reader α) :
    (do let n ← fixed width limit; let u ← Reader.mark c; k n u) (ds ++ '\n' :: rest) = none := by
  rw [Reader.bind_apply]
  cases h : fixed width limit (ds ++ '\n' :: rest) with
  | none => rfl
  | some x =>
    obtain ⟨n, cs⟩ := x
    obtain ⟨ds', hdigits', rfl⟩ := exists_of_fixed hdigits rest h
    simp only [Option.bind_some, Reader.bind_apply, mark_digits hdigits' rest hc hline, Option.bind_none]

theorem moment_digits : moment (ds ++ '\n' :: rest) = none := by
  have hdate : date (ds ++ '\n' :: rest) = none := fixed_mark hdigits rest (by decide) (by decide) 4 9999 _
  have hclock : clock (ds ++ '\n' :: rest) = none := fixed_mark hdigits rest (by decide) (by decide) 2 23 _
  rw [moment, Reader.orElse_apply, Reader.bind_apply, hdate, hclock]
  rfl

end

/-- The digits of a whole number above zero, without zeros in front. -/
structure Digits (ds : List Char) (n : Nat) : Prop where
  digits : ∀ d ∈ ds, Text.isDigit d = true
  nonempty : ds ≠ []
  lead : ds.head? ≠ some '0'
  value : Text.readNumeral 10 ds = some n

theorem digits_numeral {n : Nat} (hn : n ≠ 0) : Digits (Text.numeral 10 n) n where
  digits := by
    intro c hc
    obtain ⟨d, hd, rfl⟩ := List.mem_map.mp hc
    exact Text.isDigit_digitChar (Text.lt_of_mem_digits hd)
  nonempty := by simp [Text.numeral, Text.digits_ne_nil]
  lead := by
    intro h
    rw [Text.numeral, List.head?_map, Option.map_eq_some_iff] at h
    obtain ⟨d, hd, hzero⟩ := h
    have hlt := Text.lt_of_mem_digits (List.mem_of_mem_head? hd)
    have hval := Text.digitValue?_digitChar d (by omega)
    rw [hzero] at hval
    obtain rfl : 0 = d := Option.some.inj hval
    exact hn (Text.head?_digits hd)
  value := Text.readNumeral_numeral (by decide) (by decide) n

namespace Digits

variable {ds : List Char} {n : Nat} (h : Digits ds n) (rest : List Char)
include h

theorem exists_cons : ∃ d ds', ds = d :: ds' ∧ Text.isDigit d = true ∧ d ≠ '0' := by
  obtain ⟨d, ds', rfl⟩ := List.exists_cons_of_ne_nil h.nonempty
  exact ⟨d, ds', rfl, h.digits d List.mem_cons_self, fun hd => h.lead (hd ▸ rfl)⟩

theorem head_ne {c : Char} (hc : Text.isDigit c = false ∨ c = '0') : (ds ++ '\n' :: rest).head? ≠ some c := by
  obtain ⟨d, ds', rfl, hd, hzero⟩ := h.exists_cons
  rw [List.cons_append, List.head?_cons]
  rintro hdc
  obtain rfl := Option.some.inj hdc
  rcases hc with hc | rfl
  · exact Bool.false_ne_true (hc.symm.trans hd)
  · exact hzero rfl

theorem mark_ne {c : Char} (hc : Text.isDigit c = false) : Reader.mark c (ds ++ '\n' :: rest) = none :=
  Reader.mark_of_ne (h.head_ne rest (.inl hc))

theorem word_ne {c : Char} (hc : Text.isDigit c = false) (w : List Char) :
    Reader.word (c :: w) (ds ++ '\n' :: rest) = none :=
  Reader.word_of_ne (h.head_ne rest (.inl hc))

theorem sign_digits : sign (ds ++ '\n' :: rest) = some (false, ds ++ '\n' :: rest) := by
  have hminus := h.head_ne rest (c := '-') (.inl (by decide))
  have hplus := h.head_ne rest (c := '+') (.inl (by decide))
  obtain ⟨d, ds', rfl, -, -⟩ := h.exists_cons
  rw [List.cons_append, List.head?_cons, ne_eq, Option.some.injEq] at hminus hplus
  simp [sign, hminus, hplus]

theorem whole_digits : whole (ds ++ '\n' :: rest) = some ((false, ds), '\n' :: rest) := by
  have hdigits : Toml.digits Text.isDigit (ds ++ '\n' :: rest) = some (ds, '\n' :: rest) := by
    obtain ⟨d, ds', rfl, hd, -⟩ := h.exists_cons
    rw [Toml.digits, if_pos (by simp [hd]), spanDigits_append h.digits]
  simp only [whole, Reader.bind_apply, h.sign_digits rest, hdigits, Option.bind_some, Reader.guard_apply, h.lead,
    false_implies, if_true, Reader.pure_apply]

theorem real_digits : real (ds ++ '\n' :: rest) = none := by
  have hfraction : fraction.maybe ('\n' :: rest) = some (none, '\n' :: rest) :=
    Reader.maybe_of_none (by simp [fraction])
  have hexponent : exponent.maybe ('\n' :: rest) = some (none, '\n' :: rest) :=
    Reader.maybe_of_none (by simp [exponent, Reader.one])
  have hdecimal : decimal (ds ++ '\n' :: rest) = none := by
    simp only [decimal, Reader.bind_apply, h.whole_digits rest, hfraction, hexponent, Option.bind_some,
      Reader.guard_apply]
    rfl
  have hinfinity : infinity (ds ++ '\n' :: rest) = none := by
    simp (disch := decide) only [infinity, Reader.bind_apply, h.sign_digits rest, Option.bind_some,
      Reader.orElse_apply, h.word_ne rest, Option.or_none]
  rw [real, Reader.orElse_apply, hdecimal, hinfinity]
  rfl

theorem integer_digits {m : Integer} (hm : Integer.ofInt? n = some m) :
    integer (ds ++ '\n' :: rest) = some (m, '\n' :: rest) := by
  have hbased (letter : Char) (base : Nat) : basedInteger letter base (ds ++ '\n' :: rest) = none := by
    rw [basedInteger, Reader.bind_apply, Reader.word_of_ne (h.head_ne rest (.inr rfl))]
    rfl
  have hdecimal : decimalInteger (ds ++ '\n' :: rest) = some (m, '\n' :: rest) := by
    rw [decimalInteger, Reader.bind_apply, h.whole_digits rest, Option.bind_some]
    change ((liftM (Text.readNumeral 10 ds) : Reader Nat) >>= fun k : Nat =>
      (liftM (Integer.ofInt? (if false = true then -(k : Int) else k)) : Reader Integer)) ('\n' :: rest) = _
    rw [Reader.bind_apply, Reader.lift_apply, h.value, Option.map_some, Option.bind_some, Reader.lift_apply,
      if_neg Bool.false_ne_true, hm, Option.map_some]
  simp only [integer, Reader.orElse_apply, hbased, Option.none_or, hdecimal]

theorem value_digits {m : Integer} (hm : Integer.ofInt? n = some m) (depth : Nat) :
    Toml.value depth (ds ++ '\n' :: rest) = some (.integer m, '\n' :: rest) := by
  have htext : Quoted.text (ds ++ '\n' :: rest) = none := by
    simp (disch := decide) only [Quoted.text, Quoted.long, Quoted.short, Quoted.basic, Quoted.literal,
      Reader.orElse_apply, Reader.bind_apply, h.word_ne rest, h.mark_ne rest, Option.bind_none, Option.or_none]
  have htruth : truth (ds ++ '\n' :: rest) = none := by
    simp (disch := decide) only [truth, Reader.orElse_apply, h.word_ne rest, Option.or_none]
  have hsimple : simpleValue (ds ++ '\n' :: rest) = some (.integer m, '\n' :: rest) := by
    simp only [simpleValue, Reader.orElse_apply, Reader.map_apply, htext, moment_digits h.digits, h.real_digits,
      htruth, h.integer_digits rest hm, Option.map_none, Option.map_some, Option.none_or]
  exact value_of_simple hsimple depth

end Digits

theorem isBare_not_space {c : Char} (h : isBare c = true) : isSpace c = false := by
  rw [Bool.eq_false_iff]
  intro hs
  rw [isSpace, Bool.or_eq_true, decide_eq_true_eq, decide_eq_true_eq] at hs
  rcases hs with rfl | rfl <;> exact absurd h (by decide)

theorem spaces_of_not {cs : List Char} (h : ∀ c ∈ cs.head?, isSpace c = false) : spaces cs = some ((), cs) := by
  have hmany : Reader.many isSpace ([] ++ cs) = some ([], cs) :=
    Reader.many_append (fun c hc => absurd hc List.not_mem_nil) h
  rw [List.nil_append] at hmany
  rw [spaces, Reader.bind_apply, hmany]
  rfl

theorem spaces_cons {cs : List Char} (h : ∀ c ∈ cs.head?, isSpace c = false) :
    spaces (' ' :: cs) = some ((), cs) := by
  have hmany : Reader.many isSpace ([' '] ++ cs) = some ([' '], cs) :=
    Reader.many_append (fun c hc => List.mem_singleton.mp hc ▸ rfl) h
  rw [spaces, Reader.bind_apply, ← List.singleton_append, hmany]
  rfl

/-- Characters that stand for a value up to the end of a line. -/
structure Spells (v : List Char) (x : Value) : Prop where
  not_space : ∀ c ∈ v.head?, isSpace c = false
  reads : ∀ rest, value 79 (v ++ '\n' :: rest) = some (x, '\n' :: rest)

theorem spells_quoted {s : String} (hne : s.toList ≠ [])
    (h : ∀ c ∈ s.toList, Quoted.isOrdinary c = true) :
    Spells ('\x22' :: s.toList ++ ['\x22']) (.string s) where
  not_space d hd := Option.some.inj hd ▸ rfl
  reads rest := by
    refine value_of_simple ?_ 79
    rw [List.append_assoc]
    simp only [simpleValue, Reader.orElse_apply, Reader.map_apply, List.singleton_append, Quoted.text_append hne h,
      Option.map_some, Option.some_or]

theorem spells_integer {m : Integer} (h : 0 < m.val) : Spells (Text.integer m.val).toList (.integer m) := by
  obtain ⟨n, hn⟩ : ∃ n : Nat, m.val = n := ⟨m.val.toNat, (Int.toNat_of_nonneg h.le).symm⟩
  have hchars : (Text.integer m.val).toList = Text.numeral 10 n := by
    rw [hn]
    exact String.toList_ofList
  have hdigits : Digits (Text.numeral 10 n) n := digits_numeral (by omega)
  have hm : Integer.ofInt? n = some m := by
    rw [← hn, Integer.ofInt?, dif_pos m.property]
  rw [hchars]
  refine ⟨fun c hc => ?_, fun rest => hdigits.value_digits rest hm 79⟩
  have hdigit := hdigits.digits c (List.mem_of_mem_head? hc)
  rw [Bool.eq_false_iff]
  intro hs
  rw [isSpace, Bool.or_eq_true, decide_eq_true_eq, decide_eq_true_eq] at hs
  rcases hs with rfl | rfl <;> exact absurd hdigit (by decide)

structure Bare (k : String) : Prop where
  nonempty : k.toList ≠ []
  bare : ∀ c ∈ k.toList, isBare c = true

namespace Bare

variable {k : String} (h : Bare k) (rest : List Char)
include h

theorem exists_cons : ∃ c cs, k.toList = c :: cs ∧ isBare c = true := by
  obtain ⟨c, cs, hk⟩ := List.exists_cons_of_ne_nil h.nonempty
  exact ⟨c, cs, hk, h.bare c (hk ▸ List.mem_cons_self)⟩

theorem head_ne {c : Char} (hc : isBare c = false) : (k.toList ++ rest).head? ≠ some c := by
  obtain ⟨d, ds, hk, hd⟩ := h.exists_cons
  rw [hk, List.cons_append, List.head?_cons]
  rintro hdc
  obtain rfl := Option.some.inj hdc
  exact Bool.false_ne_true (hc.symm.trans hd)

theorem not_space : ∀ c ∈ (k.toList ++ rest).head?, isSpace c = false := by
  obtain ⟨d, ds, hk, hd⟩ := h.exists_cons
  rw [hk]
  rintro c hc
  obtain rfl : d = c := Option.some.inj hc
  exact isBare_not_space hd

theorem name_bare : name (k.toList ++ ' ' :: '=' :: rest) = some (k, '=' :: rest) := by
  have hshort : Quoted.short (k.toList ++ ' ' :: '=' :: rest) = none := by
    simp only [Quoted.short, Quoted.basic, Quoted.literal, Reader.orElse_apply, Reader.bind_apply,
      Reader.mark_of_ne (h.head_ne _ (show isBare '\x22' = false by decide)),
      Reader.mark_of_ne (h.head_ne _ (show isBare '\x27' = false by decide)), Option.bind_none, Option.or_none]
  have hmany : Reader.many isBare (k.toList ++ ' ' :: '=' :: rest) = some (k.toList, ' ' :: '=' :: rest) :=
    Reader.many_append h.bare fun c hc => Option.some.inj hc ▸ rfl
  have hbare : bareName (k.toList ++ ' ' :: '=' :: rest) = some (k, ' ' :: '=' :: rest) := by
    simp only [bareName, Reader.bind_apply, hmany, Option.bind_some, Reader.guard_apply, h.nonempty, ne_eq,
      not_false_eq_true, if_true, Reader.pure_apply, String.ofList_toList]
  have hspaces : spaces (' ' :: '=' :: rest) = some ((), '=' :: rest) :=
    spaces_cons fun c hc => Option.some.inj hc ▸ rfl
  simp only [name, Reader.bind_apply, spaces_of_not (h.not_space _), Option.bind_some, Reader.orElse_apply, hshort,
    hbare, Option.none_or, hspaces, Reader.pure_apply]

theorem key_bare : key (k.toList ++ ' ' :: '=' :: rest) = some (⟨[], k⟩, '=' :: rest) := by
  have hseparated : Reader.separated '.' name (k.toList ++ ' ' :: '=' :: rest) = some ([k], '=' :: rest) := by
    simp [Reader.separated, Reader.separatedUpTo, h.name_bare]
  rw [key, Reader.bind_apply, hseparated]
  rfl

theorem line_bare {v : List Char} {x : Value} (hv : Spells v x) :
    line (k.toList ++ ' ' :: '=' :: ' ' :: v ++ '\n' :: rest) = some (some (.assignment ⟨[], k⟩ x), rest) := by
  have hspaces : spaces (' ' :: v ++ '\n' :: rest) = some ((), v ++ '\n' :: rest) := by
    refine spaces_cons ?_
    cases v with
    | nil => exact fun c hc => Option.some.inj hc ▸ rfl
    | cons d v => exact hv.not_space
  have hassignment : assignment (value 79) (k.toList ++ ' ' :: '=' :: (' ' :: v ++ '\n' :: rest)) =
      some ((⟨[], k⟩, x), '\n' :: rest) := by
    simp only [assignment, Reader.bind_apply, h.key_bare, Option.bind_some, Reader.mark_apply, if_true, hspaces,
      hv.reads, Reader.pure_apply]
  have hstatement : statement (k.toList ++ ' ' :: '=' :: (' ' :: v ++ '\n' :: rest)) =
      some (.assignment ⟨[], k⟩ x, '\n' :: rest) := by
    simp only [statement, Reader.orElse_apply, Reader.bind_apply, Reader.map_apply,
      Reader.word_of_ne (h.head_ne _ (show isBare '[' = false by decide)),
      Reader.mark_of_ne (h.head_ne _ (show isBare '[' = false by decide)), Option.bind_none, Option.none_or,
      hassignment, Option.map_some]
  have hend : lineEnd ('\n' :: rest) = some ((), rest) := by
    have hcomment : comment.maybe ('\n' :: rest) = some (none, '\n' :: rest) :=
      Reader.maybe_of_none (by simp [comment])
    have hnone : spaces ('\n' :: rest) = some ((), '\n' :: rest) :=
      spaces_of_not fun c hc => Option.some.inj hc ▸ rfl
    simp [lineEnd, hnone, hcomment, newline]
  rw [List.append_assoc, List.cons_append, List.cons_append]
  simp only [line, Reader.bind_apply, spaces_of_not (h.not_space _), Reader.maybe_of_some hstatement,
    Option.bind_some, hend, Reader.pure_apply]

end Bare

theorem lines_cons {cs rest : List Char} {s : Statement} (hne : cs ≠ []) (h : line cs = some (some s, rest)) (n : Nat) :
    lines (n + 1) cs = (lines n rest).map (s :: ·) := by
  obtain ⟨c, cs, rfl⟩ := List.exists_cons_of_ne_nil hne
  simp only [lines, h, Option.bind_eq_bind, Option.bind_some]
  cases lines n rest <;> rfl

theorem lookup_insertList (k j : String) (i : Item) (t : Fields) :
    (OrderedMap.insertList k i t).lookup j = if j = k then some i else t.lookup j := by
  induction t with
  | nil => exact lookup_cons_eq_ite k j i []
  | cons p t ih =>
    obtain ⟨k', i'⟩ := p
    rw [OrderedMap.insertList]
    split
    · exact lookup_cons_eq_ite k j i _
    · rename_i hc
      obtain rfl := Std.LawfulEqOrd.eq_of_compare hc
      rw [lookup_cons_eq_ite, lookup_cons_eq_ite]
      split <;> rfl
    · rename_i hc
      have hne : k ≠ k' := by
        rintro rfl
        have hself : compare k k = .eq := Std.ReflCmp.compare_self
        rw [hself] at hc
        cases hc
      rw [lookup_cons_eq_ite, lookup_cons_eq_ite, ih]
      by_cases hj : j = k'
      · subst hj
        rw [if_pos rfl, if_neg (Ne.symm hne), if_pos rfl]
      · rw [if_neg hj, if_neg hj]

theorem assign_bare {t : Fields} {k : String} (h : t.lookup k = none) (v : Value) :
    assign t (⟨[], k⟩, v) = some (OrderedMap.insertList k (.value v) t) := by
  simp [assign, changeAt, h]

theorem assignAll_bare (as : List (String × Value)) (t : Fields) (hnames : (as.map (·.1)).Nodup)
    (hnew : ∀ a ∈ as, t.lookup a.1 = none) :
    ∃ t', assignAll t (as.map fun a => (⟨[], a.1⟩, a.2)) = some t' ∧
      ∀ j, t'.lookup j = ((as.lookup j).map Item.value).or (t.lookup j) := by
  induction as generalizing t with
  | nil => exact ⟨t, rfl, fun j => rfl⟩
  | cons a as ih =>
    obtain ⟨k, v⟩ := a
    obtain ⟨hk, hnames⟩ := List.nodup_cons.mp hnames
    have hlookup (j : String) := lookup_insertList k j (.value v) t
    obtain ⟨t', ht', hall⟩ := ih (OrderedMap.insertList k (.value v) t) hnames fun a ha => by
      have hne : a.1 ≠ k := fun h => hk (List.mem_map.mpr ⟨a, ha, h⟩)
      rw [hlookup, if_neg hne]
      exact hnew a (List.mem_cons_of_mem _ ha)
    refine ⟨t', ?_, fun j => ?_⟩
    · rw [List.map_cons, assignAll, List.foldlM_cons, assign_bare (hnew _ List.mem_cons_self)]
      exact ht'
    · rw [hall, hlookup, lookup_cons_eq_ite]
      by_cases hj : j = k
      · have hnone : as.lookup j = none := List.lookup_eq_none_iff.mpr fun p hp => by
          have hne : p.1 ≠ k := fun h => hk (List.mem_map.mpr ⟨p, hp, h⟩)
          simpa [hj] using Ne.symm hne
        rw [if_pos hj, if_pos hj, hnone]
        rfl
      · rw [if_neg hj, if_neg hj]

def assignmentLines (as : List (String × List Char × Value)) : List Char :=
  as.flatMap fun a => a.1.toList ++ ' ' :: '=' :: ' ' :: a.2.1 ++ ['\n']

theorem assignmentLines_cons (a : String × List Char × Value) (as : List (String × List Char × Value)) :
    assignmentLines (a :: as) = a.1.toList ++ ' ' :: '=' :: ' ' :: a.2.1 ++ '\n' :: assignmentLines as := by
  simp [assignmentLines]

theorem length_le_assignmentLines (as : List (String × List Char × Value)) :
    as.length ≤ (assignmentLines as).length := by
  induction as with
  | nil => exact Nat.zero_le _
  | cons a as ih =>
    rw [assignmentLines_cons]
    simp only [List.length_append, List.length_cons]
    omega

variable {as : List (String × List Char × Value)}

theorem lines_assignmentLines (has : ∀ a ∈ as, Bare a.1 ∧ Spells a.2.1 a.2.2) {n : Nat} (hn : as.length ≤ n) :
    lines n (assignmentLines as) = some (as.map fun a => .assignment ⟨[], a.1⟩ a.2.2) := by
  induction as generalizing n with
  | nil => cases n <;> rfl
  | cons a as ih =>
    obtain ⟨m, rfl⟩ : ∃ m, n = m + 1 := ⟨n - 1, by rw [List.length_cons] at hn; omega⟩
    obtain ⟨hbare, hspells⟩ := has a List.mem_cons_self
    rw [assignmentLines_cons, lines_cons (by simp) (hbare.line_bare _ hspells),
      ih (fun b hb => has b (List.mem_cons_of_mem _ hb)) (Nat.le_of_succ_le_succ hn)]
    rfl

theorem sections_assignments (as : List (Key × Value)) :
    sections (as.map fun a => .assignment a.1 a.2) = (as, []) := by
  induction as with
  | nil => rfl
  | cons a as ih => rw [List.map_cons, sections, ih]

/-- A text of lines that give values to different bare names is a table of these values. -/
theorem ofText?_assignmentLines (has : ∀ a ∈ as, Bare a.1 ∧ Spells a.2.1 a.2.2)
    (hnames : (as.map (·.1)).Nodup) : ∃ t, ofText? (String.ofList (assignmentLines as)) = some t ∧
      ∀ j, t.lookup j = ((as.map fun a => (a.1, a.2.2)).lookup j).map Item.value := by
  obtain ⟨t, ht, hlookup⟩ := assignAll_bare (as.map fun a => (a.1, a.2.2)) [] (by rwa [List.map_map]) fun _ _ => rfl
  refine ⟨t, ?_, fun j => by rw [hlookup, List.lookup_nil, Option.or_none]⟩
  have hmark : ∀ cs, assignmentLines as ≠ '\ufeff' :: cs := by
    cases as with
    | nil => exact fun cs h => by cases h
    | cons a as =>
      intro cs h
      rw [assignmentLines_cons, List.append_assoc] at h
      exact (has a List.mem_cons_self).1.head_ne _ (show isBare '\ufeff' = false by decide) (by rw [h]; rfl)
  have hlines := lines_assignmentLines has (length_le_assignmentLines as)
  have hsections : sections (as.map fun a => .assignment ⟨[], a.1⟩ a.2.2) =
      (as.map fun a => (⟨[], a.1⟩, a.2.2), []) := by
    rw [← sections_assignments, List.map_map]
    rfl
  have hassign : assignAll [] (as.map fun a => (⟨[], a.1⟩, a.2.2)) = some t := by
    rw [← ht, List.map_map]
    rfl
  rw [ofText?, String.toList_ofList]
  split
  · rename_i cs h
    exact absurd h (hmark cs)
  · simp only [hlines, Option.bind_eq_bind, Option.bind_some, ofStatements?, hsections, hassign]
    rfl

end Toml
end FlightTrace
