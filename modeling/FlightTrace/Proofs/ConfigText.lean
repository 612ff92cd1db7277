import FlightTrace.Config.Text
import FlightTrace.Proofs.TomlText

/-! Configurations as text. Whole numbers of a file end at 2 ^ 63, and two numbers of a configuration may go beyond
that. Valid configurations without such numbers are read from their text as they were. -/
namespace FlightTrace

namespace Config

def Saveable (c : Config) : Prop :=
  c.lockTimeout.val < 0x8000000000000000 ∧ c.cancelInterval.val < 0x8000000000000000

instance (c : Config) : Decidable c.Saveable := inferInstanceAs (Decidable (_ ∧ _))

theorem validate_eq_ok_iff_exists (c : Config) :
    c.validate = .ok () ↔ (∃ d, c.mode = .ok d) ∧ ∃ s, c.settings = .ok s := by
  rw [validate]
  cases c.mode with
  | error e => simp [bind, Except.bind]
  | ok d =>
    cases c.settings with
    | error e => simp [bind, Except.bind]
    | ok s => simp [bind, Except.bind, pure, Except.pure]

theorem exists_mode_iff (c : Config) :
    (∃ d, c.mode = .ok d) ↔ c.durability = "standard" ∨ c.durability = "always" := by
  rw [mode]
  split
  · rename_i h
    exact iff_of_true ⟨_, rfl⟩ (.inl h)
  · rename_i h
    exact iff_of_true ⟨_, rfl⟩ (.inr h)
  · rename_i h h'
    exact iff_of_false (fun ⟨_, hd⟩ => by cases hd) fun hd => hd.elim h h'

theorem exists_settings_iff (c : Config) : (∃ s, c.settings = .ok s) ↔
    c.lockTimeout.val ≠ 0 ∧ 0 < c.bucketWidth.val ∧ c.cancelInterval.val ≠ 0 := by
  rw [settings]
  split
  · exact iff_of_false (fun ⟨_, hs⟩ => by cases hs) fun h => by simp_all
  · split
    · exact iff_of_false (fun ⟨_, hs⟩ => by cases hs) fun h => by omega
    · split
      · exact iff_of_false (fun ⟨_, hs⟩ => by cases hs) fun h => by simp_all
      · exact iff_of_true ⟨_, rfl⟩ (by omega)

theorem validate_eq_ok_iff (c : Config) : c.validate = .ok () ↔
    (c.durability = "standard" ∨ c.durability = "always") ∧
      c.lockTimeout.val ≠ 0 ∧ 0 < c.bucketWidth.val ∧ c.cancelInterval.val ≠ 0 := by
  rw [validate_eq_ok_iff_exists, exists_mode_iff, exists_settings_iff]

variable {c : Config} {t : String}

/-- The settings of a configuration, their values as they are written and as they are read. -/
def assignments (c : Config) (lockTimeout bucketWidth cancelInterval : Toml.Integer) :
    List (String × List Char × Toml.Value) :=
  [("durability", Toml.Quoted.write c.durability.toList, .string c.durability),
    ("lock_timeout_ms", (Text.integer lockTimeout.val).toList, .integer lockTimeout),
    ("time_bucket_secs", (Text.integer bucketWidth.val).toList, .integer bucketWidth),
    ("cancel_check_interval", (Text.integer cancelInterval.val).toList, .integer cancelInterval)]

theorem integerChars_of_ofInt? {n : Int} {m : Toml.Integer} (h : Toml.Integer.ofInt? n = some m) :
    integerChars n = .ok (Text.integer m.val).toList := by
  rw [integerChars, h]

theorem text_eq {l w i : Toml.Integer} (hl : Toml.Integer.ofInt? c.lockTimeout.val = some l)
    (hw : Toml.Integer.ofInt? c.bucketWidth.val = some w) (hi : Toml.Integer.ofInt? c.cancelInterval.val = some i) :
    c.text = .ok (String.ofList (Toml.assignmentLines (c.assignments l w i))) := by
  rw [text, integerChars_of_ofInt? hl, integerChars_of_ofInt? hw, integerChars_of_ofInt? hi]
  refine congrArg Except.ok (congrArg String.ofList ?_)
  simp [line, assignments, Toml.assignmentLines]

theorem ofInt?_natCast {n : Nat} (h : n < 0x8000000000000000) :
    Toml.Integer.ofInt? n = some ⟨n, by omega, by omega⟩ := by
  rw [Toml.Integer.ofInt?, dif_pos (by omega)]

theorem ofInt?_bucketWidth (c : Config) : Toml.Integer.ofInt? c.bucketWidth.val = some c.bucketWidth := by
  rw [Toml.Integer.ofInt?, dif_pos c.bucketWidth.property]

theorem Saveable.exists_integers (h : c.Saveable) : ∃ l i : Toml.Integer,
    Toml.Integer.ofInt? c.lockTimeout.val = some l ∧ l.val = c.lockTimeout.val ∧
    Toml.Integer.ofInt? c.cancelInterval.val = some i ∧ i.val = c.cancelInterval.val :=
  ⟨_, _, ofInt?_natCast h.1, rfl, ofInt?_natCast h.2, rfl⟩

theorem text_of_not_saveable (h : ¬c.Saveable) : c.text = .error .config := by
  have hfail {n : Nat} (hn : ¬n < 0x8000000000000000) : integerChars n = .error .config := by
    rw [integerChars, Toml.Integer.ofInt?, dif_neg (by omega)]
  rw [text, integerChars_of_ofInt? c.ofInt?_bucketWidth]
  by_cases hl : c.lockTimeout.val < 0x8000000000000000
  · rw [integerChars_of_ofInt? (ofInt?_natCast hl), hfail fun hi => h ⟨hl, hi⟩]
    rfl
  · rw [hfail hl]
    rfl

/-- A configuration has a text just if a file can hold its numbers. -/
theorem exists_text_iff (c : Config) : (∃ t, c.text = .ok t) ↔ c.Saveable := by
  by_cases h : c.Saveable
  · obtain ⟨l, i, hl, -, hi, -⟩ := h.exists_integers
    exact iff_of_true ⟨_, text_eq hl c.ofInt?_bucketWidth hi⟩ h
  · refine iff_of_false ?_ h
    rintro ⟨t, ht⟩
    rw [text_of_not_saveable h] at ht
    cases ht

theorem natural_integer {m : Toml.Integer} {n : { n : Nat // n < 0x10000000000000000 }} (h : m.val = n.val) :
    natural (.value (.integer m)) = some n := by
  have hn : m.val.toNat = n.val := by omega
  rw [natural, if_pos (by omega)]
  exact congrArg some (Subtype.ext hn)

theorem spells_durability {d : String} (h : d = "standard" ∨ d = "always") :
    Toml.Spells (Toml.Quoted.write d.toList) (.string d) := by
  rcases h with rfl | rfl
  · have hwrite : Toml.Quoted.write "standard".toList = '\x22' :: "standard".toList ++ ['\x22'] := by decide +kernel
    rw [hwrite]
    exact Toml.spells_quoted (by decide) (List.all_eq_true.mp (by decide))
  · have hwrite : Toml.Quoted.write "always".toList = '\x22' :: "always".toList ++ ['\x22'] := by decide +kernel
    rw [hwrite]
    exact Toml.spells_quoted (by decide) (List.all_eq_true.mp (by decide))

/-- What is written of a valid configuration is read as the same configuration. -/
theorem ofText?_text (hv : c.validate = .ok ()) (ht : c.text = .ok t) : ofText? t = some c := by
  obtain ⟨hdurability, hlock, hwidth, hinterval⟩ := (validate_eq_ok_iff c).mp hv
  obtain ⟨l, i, hl, hlval, hi, hival⟩ := ((exists_text_iff c).mp ⟨t, ht⟩).exists_integers
  obtain rfl := Except.ok.inj ((text_eq hl c.ofInt?_bucketWidth hi).symm.trans ht)
  have hspells : ∀ a ∈ c.assignments l c.bucketWidth i, Toml.Bare a.1 ∧ Toml.Spells a.2.1 a.2.2 := by
    have hl' : Toml.Spells (Text.integer l.val).toList (.integer l) := Toml.spells_integer (by omega)
    have hi' : Toml.Spells (Text.integer i.val).toList (.integer i) := Toml.spells_integer (by omega)
    simp only [assignments, List.forall_mem_cons, spells_durability hdurability, hl', Toml.spells_integer hwidth, hi',
      and_true]
    have hbare {k : String} (hne : k.toList ≠ []) (hall : k.toList.all Toml.isBare = true) : Toml.Bare k :=
      ⟨hne, List.all_eq_true.mp hall⟩
    exact ⟨hbare (by decide) (by decide), hbare (by decide) (by decide), hbare (by decide) (by decide),
      hbare (by decide) (by decide), by simp⟩
  obtain ⟨fields, hfields, hlookup⟩ := Toml.ofText?_assignmentLines hspells (by simp [assignments])
  have hsetting {α : Type} {name : String} {x : Toml.Value} {a : α} (read : Toml.Item → Option α) (usual : α)
      (hname : ((c.assignments l c.bucketWidth i).map fun a => (a.1, a.2.2)).lookup name = some x)
      (hread : read (.value x) = some a) : setting fields name read usual = some a := by
    rw [setting, hlookup, hname]
    exact hread
  rw [ofText?, hfields, Option.bind_some, ofTable?, hsetting string _ rfl rfl,
    hsetting natural _ rfl (natural_integer hlval), hsetting integer _ rfl rfl,
    hsetting natural _ rfl (natural_integer hival)]
  rfl

theorem lt_of_natural {i : Toml.Item} {n : { n : Nat // n < 0x10000000000000000 }} (h : natural i = some n) :
    n.val < 0x8000000000000000 := by
  unfold natural at h
  split at h
  · rename_i m
    split at h
    · obtain rfl := Option.some.inj h
      have := m.property
      simp only
      omega
    · cases h
  · cases h

theorem lt_of_setting {t : Toml.Fields} {name : String} {usual n : { n : Nat // n < 0x10000000000000000 }}
    (husual : usual.val < 0x8000000000000000) (h : setting t name natural usual = some n) :
    n.val < 0x8000000000000000 := by
  rw [setting] at h
  split at h
  · obtain rfl := Option.some.inj h
    exact husual
  · exact lt_of_natural h

theorem saveable_of_ofText? (h : ofText? t = some c) : c.Saveable := by
  obtain ⟨fields, -, h⟩ := Option.bind_eq_some_iff.mp h
  obtain ⟨d, -, h⟩ := Option.bind_eq_some_iff.mp h
  obtain ⟨l, hl, h⟩ := Option.bind_eq_some_iff.mp h
  obtain ⟨w, -, h⟩ := Option.bind_eq_some_iff.mp h
  obtain ⟨i, hi, h⟩ := Option.bind_eq_some_iff.mp h
  obtain rfl := Option.some.inj h
  exact ⟨lt_of_setting (by decide) hl, lt_of_setting (by decide) hi⟩

end Config
end FlightTrace
