import FlightTrace.Proofs.JsonText

/-! Documents that are too deep to be read. A reader that may not go as deep as a document refuses its text as a
whole, wherever in it the deep part stands. -/
namespace FlightTrace
namespace Json

section

variable {α : Type} {item : List Char → Option (α × List Char)} {text : α → List Char} {close : Char}

/-- Whether an item is read from its text before a comma or the closing mark. -/
def Takes (item : List Char → Option (α × List Char)) (text : α → List Char) (close : Char) (a : α) : Prop :=
  ∀ c ∈ [',', close], ∀ rest, item (text a ++ c :: rest) = some (a, c :: rest)

def Refuses (item : List Char → Option (α × List Char)) (text : α → List Char) (close : Char) (a : α) : Prop :=
  ∀ c ∈ [',', close], ∀ rest, item (text a ++ c :: rest) = none

theorem not_takes_of_refuses {a : α} (h : Refuses item text close a) : ¬Takes item text close a := by
  intro ht
  have hread := ht ',' List.mem_cons_self []
  rw [h ',' List.mem_cons_self] at hread
  cases hread

/-- A row is refused with one of its items, if no item is taken for anything else. -/
theorem readItems_joined_eq_none {as : List α}
    (hitem : ∀ a ∈ as, Takes item text close a ∨ Refuses item text close a)
    (hdeep : ∃ a ∈ as, Refuses item text close a) (n : Nat) (rest : List Char) :
    readItems item close n (joined (as.map text) ++ close :: rest) = none := by
  induction as generalizing n with
  | nil =>
    obtain ⟨a, ha, -⟩ := hdeep
    cases ha
  | cons a as ih =>
    cases n with
    | zero => rfl
    | succ n =>
      cases as with
      | nil =>
        obtain ⟨b, hb, hnone⟩ := hdeep
        rw [List.mem_singleton.mp hb] at hnone
        simp [readItems, joined, hnone close (by simp)]
      | cons b as =>
        rcases hitem a List.mem_cons_self with ha | hnone
        · have hlater : readItems item close n (joined ((b :: as).map text) ++ close :: rest) = none := by
            obtain ⟨d, hd, hnone⟩ := hdeep
            rcases List.mem_cons.mp hd with rfl | hd
            · exact absurd ha (not_takes_of_refuses hnone)
            · exact ih (fun c hc => hitem c (List.mem_cons_of_mem a hc)) ⟨d, hd, hnone⟩ n
          simp only [List.map_cons] at hlater
          simp [readItems, joined, ha ',' (by simp), hlater, show isSpace ',' = false from by decide]
        · simp [readItems, joined, hnone ',' (by simp)]

theorem readRow_joined_eq_none {as : List α}
    (hhead : ∀ a ∈ as, ∃ c cs, text a = c :: cs ∧ isSpace c = false ∧ c ≠ close)
    (hitem : ∀ a ∈ as, Takes item text close a ∨ Refuses item text close a)
    (hdeep : ∃ a ∈ as, Refuses item text close a) (rest : List Char) :
    readRow item close (joined (as.map text) ++ close :: rest) = none := by
  have hitems := readItems_joined_eq_none hitem hdeep
  cases as with
  | nil =>
    obtain ⟨a, ha, -⟩ := hdeep
    cases ha
  | cons a as =>
    obtain ⟨c, cs, ha, hc, hclose⟩ := hhead a List.mem_cons_self
    obtain ⟨ds, hds⟩ : ∃ ds, joined ((a :: as).map text) ++ close :: rest = c :: ds := by
      cases as with
      | nil => exact ⟨cs ++ close :: rest, by simp [joined, ha]⟩
      | cons b as => exact ⟨_, by simp [joined, ha]; rfl⟩
    rw [readRow, hds, List.dropWhile_cons_of_neg (by simp [hc])]
    simp only [if_neg hclose]
    rw [← hds]
    exact hitems _ rest

end

theorem exists_deep_item {n : Nat} {vs : List Json} (h : n < itemsDepth vs) : ∃ v ∈ vs, n < depth v := by
  induction vs with
  | nil => exact absurd h (Nat.not_lt_zero n)
  | cons v vs ih =>
    rcases lt_max_iff.mp h with hv | hvs
    · exact ⟨v, List.mem_cons_self, hv⟩
    · obtain ⟨w, hw, hd⟩ := ih hvs
      exact ⟨w, List.mem_cons_of_mem v hw, hd⟩

theorem exists_deep_field {n : Nat} {fs : List (String × Json)} (h : n < fieldsDepth fs) :
    ∃ f ∈ fs, n < depth f.2 := by
  induction fs with
  | nil => exact absurd h (Nat.not_lt_zero n)
  | cons f fs ih =>
    rcases lt_max_iff.mp h with hf | hfs
    · exact ⟨f, List.mem_cons_self, hf⟩
    · obtain ⟨g, hg, hd⟩ := ih hfs
      exact ⟨g, List.mem_cons_of_mem f hg, hd⟩

theorem readField_fieldChars_eq_none {value : List Char → Option (Json × List Char)} {f : String × Json}
    {rest : List Char} (h : value (chars f.2 ++ rest) = none) :
    readField value (fieldChars f ++ rest) = none := by
  have hchars : fieldChars f ++ rest = stringChars f.1 ++ ':' :: (chars f.2 ++ rest) := by simp [fieldChars]
  have hspace : (stringChars f.1 ++ ':' :: (chars f.2 ++ rest)).dropWhile isSpace =
      stringChars f.1 ++ ':' :: (chars f.2 ++ rest) := rfl
  simp only [readField, hchars, hspace, readString_stringChars]
  show (value (chars f.2 ++ rest)).bind _ = _
  rw [h]
  rfl

section

variable {n : Nat}

theorem readValue_array_eq_none {vs : List Json} (hfree : ∀ v ∈ vs, RealFree v)
    (hitem : ∀ v ∈ vs, Takes (readValue n) chars ']' v ∨ Refuses (readValue n) chars ']' v)
    (hdeep : ∃ v ∈ vs, Refuses (readValue n) chars ']' v) (rest : List Char) :
    readValue (n + 1) ((array vs).chars ++ rest) = none := by
  have hhead : ∀ v ∈ vs, ∃ c cs, v.chars = c :: cs ∧ isSpace c = false ∧ c ≠ ']' := by
    intro v hv
    obtain ⟨c, cs, hcs, hs, hclose, -⟩ := exists_head_chars v (hfree v hv)
    exact ⟨c, cs, hcs, hs, hclose⟩
  have hchars : (array vs).chars ++ rest = '[' :: (joined (vs.map chars) ++ ']' :: rest) := by
    simp [chars, itemsChars_eq_joined]
  rw [hchars, readValue.eq_def]
  show (readRow (readValue n) ']' _).map _ = _
  rw [readRow_joined_eq_none hhead hitem hdeep]
  rfl

theorem readValue_object_eq_none {fs : List (String × Json)}
    (hitem : ∀ f ∈ fs, Takes (readField (readValue n)) fieldChars '\x7d' f ∨
      Refuses (readField (readValue n)) fieldChars '\x7d' f)
    (hdeep : ∃ f ∈ fs, Refuses (readField (readValue n)) fieldChars '\x7d' f) (rest : List Char) :
    readValue (n + 1) ((object fs).chars ++ rest) = none := by
  have hhead : ∀ f ∈ fs, ∃ c cs, fieldChars f = c :: cs ∧ isSpace c = false ∧ c ≠ '\x7d' :=
    fun f _ => ⟨_, _, rfl, by decide, by decide⟩
  have hchars : (object fs).chars ++ rest = '\x7b' :: (joined (fs.map fieldChars) ++ '\x7d' :: rest) := by
    simp [chars, fieldsChars_eq_joined]
  rw [hchars, readValue.eq_def]
  show (readRow (readField (readValue n)) '\x7d' _).map _ = _
  rw [readRow_joined_eq_none hhead hitem hdeep]
  rfl

end

theorem stops_of_close {c close : Char} (hclose : close = ']' ∨ close = '\x7d') (hc : c ∈ [',', close])
    (rest : List Char) : Stops (c :: rest) := by
  refine stops_of_mem ?_ rest
  simp only [List.mem_cons, List.not_mem_nil, or_false] at hc ⊢
  rcases hc with rfl | rfl
  · exact .inl rfl
  · exact .inr hclose

/-- A reader that may not go as deep as a document refuses its text, whatever comes after it. -/
theorem readValue_chars_eq_none {n : Nat} {v : Json} (hc : Canonical v) (hr : RealFree v) (hd : n < depth v)
    (rest : List Char) : readValue n (v.chars ++ rest) = none := by
  induction n generalizing v rest with
  | zero =>
    cases v with
    | array vs =>
      rw [readValue.eq_def]
      rfl
    | object fs =>
      rw [readValue.eq_def]
      rfl
    | _ => exact absurd hd (Nat.lt_irrefl 0)
  | succ n ih =>
    cases v with
    | array vs =>
      have hdeep : ∃ v ∈ vs, n < depth v := exists_deep_item (Nat.lt_of_succ_lt_succ hd)
      have hrefused : ∀ v ∈ vs, n < depth v → Refuses (readValue n) chars ']' v := fun v hv hlt c _ rest =>
        ih ((of_mem_items hv).1 hc) ((of_mem_items hv).2.1 hr) hlt (c :: rest)
      refine readValue_array_eq_none (fun v hv => (of_mem_items hv).2.1 hr) (fun v hv => ?_) ?_ rest
      · rcases Nat.lt_or_ge n (depth v) with hlt | hle
        · exact .inr (hrefused v hv hlt)
        · exact .inl fun c hmark rest => readValue_chars ((of_mem_items hv).1 hc) ((of_mem_items hv).2.1 hr) hle
            (stops_of_close (.inl rfl) hmark rest)
      · obtain ⟨v, hv, hlt⟩ := hdeep
        exact ⟨v, hv, hrefused v hv hlt⟩
    | object fs =>
      have hdeep : ∃ f ∈ fs, n < depth f.2 := exists_deep_field (Nat.lt_of_succ_lt_succ hd)
      have hrefused : ∀ f ∈ fs, n < depth f.2 → Refuses (readField (readValue n)) fieldChars '\x7d' f :=
        fun f hf hlt c _ rest => readField_fieldChars_eq_none
          (ih ((of_mem_fields hf).1 hc.2) ((of_mem_fields hf).2.1 hr) hlt (c :: rest))
      refine readValue_object_eq_none (fun f hf => ?_) ?_ rest
      · rcases Nat.lt_or_ge n (depth f.2) with hlt | hle
        · exact .inr (hrefused f hf hlt)
        · exact .inl fun c hmark rest => readField_fieldChars (readValue_chars ((of_mem_fields hf).1 hc.2)
            ((of_mem_fields hf).2.1 hr) hle (stops_of_close (.inr rfl) hmark rest))
      · obtain ⟨f, hf, hlt⟩ := hdeep
        exact ⟨f, hf, hrefused f hf hlt⟩
    | _ => exact absurd hd (Nat.not_lt_zero _)

/-- The text of a document is read as the document, or refused if the document is too deep. -/
theorem ofText?_text_eq {v : Json} (hc : Canonical v) (hr : RealFree v) :
    ofText? v.text = if depth v < 128 then some v else none := by
  by_cases hd : depth v < 128
  · rw [if_pos hd, Readable.ofText?_text ⟨hc, hr, hd⟩]
  · have hnone := readValue_chars_eq_none hc hr (Nat.lt_of_succ_le (Nat.not_lt.mp hd)) []
    rw [List.append_nil] at hnone
    rw [if_neg hd, ofText?, text, String.toList_ofList, ofChars?, hnone]
    rfl

end Json
end FlightTrace
