import FlightTrace.Proofs.Ordered
import FlightTrace.Tables.Catalog

/-! Registrations found by their marks. Whatever rows are set and whichever of their hooks refuse, each mark
leads to the addresses that bear it now and to no others. A read from the side of the marks also looks at the
rows, and that hides addresses which are there in excess but not those which are missing. -/
namespace FlightTrace
namespace Catalog

variable {κ σ : Type}

def Bears (c : Catalog) (a : Address) (mark : String) : Prop :=
  ∃ row, c.registration? a = some row ∧ row.mark = mark

theorem bears_iff_of_registration? {c : Catalog} {a : Address} {row : Registration}
    (h : c.registration? a = some row) (mark : String) : c.Bears a mark ↔ row.mark = mark := by
  rw [Bears, h]
  simp only [Option.some.injEq, exists_eq_left']

theorem not_bears_of_registration? {c : Catalog} {a : Address} (h : c.registration? a = none)
    (mark : String) : ¬c.Bears a mark := by
  rintro ⟨row, hrow, -⟩
  rw [h] at hrow
  cases hrow

/-- The marks lead to just the addresses that bear them, and no mark is kept that nobody bears. -/
structure Indexed (c : Catalog) : Prop where
  mem_addresses : ∀ a mark, a ∈ Multimap.values c.addresses mark ↔ c.Bears a mark
  full : Multimap.Full c.addresses

theorem registration?_setRegistration (c : Catalog) (row : Registration) (a : Address) :
    (c.setRegistration row).registration? a = if a = row.address then some row else c.registration? a :=
  OrderedMap.get?_insert

theorem bears_setRegistration (c : Catalog) (row : Registration) (a : Address) (mark : String) :
    (c.setRegistration row).Bears a mark ↔ if a = row.address then mark = row.mark else c.Bears a mark := by
  have hrow := registration?_setRegistration c row a
  by_cases ha : a = row.address
  · rw [if_pos ha] at hrow ⊢
    rw [bears_iff_of_registration? hrow, eq_comm]
  · rw [if_neg ha] at hrow ⊢
    rw [Bears, hrow, Bears]

theorem setRegistration_of_registration? {c : Catalog} {row : Registration}
    (h : c.registration? row.address = some row) : c.setRegistration row = c := by
  have hget : c.registrations.get? row.address = some row := h
  have hrows : c.registrations.insert row.address row = c.registrations := by
    refine OrderedMap.ext_get? fun a => ?_
    rw [OrderedMap.get?_insert]
    split
    · rename_i ha
      rw [ha, hget]
    · rfl
  simp only [setRegistration, hget, if_true, hrows]

theorem setRegistration_setRegistration (c : Catalog) (row : Registration) :
    (c.setRegistration row).setRegistration row = c.setRegistration row :=
  setRegistration_of_registration? ((registration?_setRegistration c row row.address).trans (if_pos rfl))

namespace Indexed

theorem empty : Indexed {} where
  mem_addresses _ mark := iff_of_false Multimap.not_mem_values_empty (not_bears_of_registration? rfl mark)
  full := Multimap.full_empty

variable {c : Catalog} (h : c.Indexed)
include h

/-- An address that is set goes over to its new mark, and all others keep theirs. -/
theorem mem_values_setRegistration (row : Registration) (a : Address) (mark : String) :
    a ∈ Multimap.values (c.setRegistration row).addresses mark ↔
      if a = row.address then mark = row.mark else c.Bears a mark := by
  rw [setRegistration]
  cases hold : c.registrations.get? row.address with
  | none =>
    have hnew (mark : String) : row.address ∉ Multimap.values c.addresses mark := fun hmem =>
      not_bears_of_registration? hold mark ((h.mem_addresses _ _).mp hmem)
    simp only [Multimap.mem_values_enter]
    by_cases ha : a = row.address
    · subst ha
      simp [hnew]
    · simp [ha, h.mem_addresses]
  | some old =>
    have hbears (mark : String) : row.address ∈ Multimap.values c.addresses mark ↔ old.mark = mark :=
      (h.mem_addresses _ _).trans (bears_iff_of_registration? hold mark)
    by_cases hmark : old.mark = row.mark
    · simp only [hmark, if_true]
      by_cases ha : a = row.address
      · subst ha
        rw [hbears, hmark, if_pos rfl, eq_comm]
      · rw [h.mem_addresses, if_neg ha]
    · simp only [if_neg hmark, Multimap.mem_values_enter, Multimap.mem_values_strike]
      by_cases ha : a = row.address
      · subst ha
        simp [hbears, eq_comm]
      · simp [ha, h.mem_addresses]

theorem setRegistration (row : Registration) : (c.setRegistration row).Indexed where
  mem_addresses a mark := by rw [h.mem_values_setRegistration, bears_setRegistration]
  full := by
    rw [Catalog.setRegistration]
    split
    · exact h.full.enter
    · split
      · exact h.full
      · exact h.full.strike.enter

theorem setModel (row : AircraftModel) : (c.setModel row).Indexed := ⟨h.mem_addresses, h.full⟩

/-- The look at the rows never takes anything away. -/
theorem withMark_eq (mark : String) : c.withMark mark = (Multimap.values c.addresses mark).toList := by
  refine List.filter_eq_self.mpr fun a ha => ?_
  obtain ⟨row, hrow, hmark⟩ := (h.mem_addresses a mark).mp ha
  have hget : c.registrations.get? a = some row := hrow
  rw [hget]
  exact decide_eq_true hmark

theorem mem_withMark_iff (a : Address) (mark : String) : a ∈ c.withMark mark ↔ c.Bears a mark := by
  rw [h.withMark_eq]
  exact h.mem_addresses a mark

theorem withMark_ascending (mark : String) : (c.withMark mark).Pairwise fun a b => a.val < b.val := by
  rw [h.withMark_eq]
  exact (Multimap.values c.addresses mark).ascending.imp Nat.compare_eq_lt.mp

theorem addresses_get?_iff (mark : String) (as : OrderedSet Address) :
    c.addresses.get? mark = some as ↔ as ≠ ∅ ∧ ∀ a, a ∈ as ↔ c.Bears a mark := by
  rw [h.full.get?_eq_some_iff]
  simp only [h.mem_addresses]

end Indexed

theorem changeWith_eq (hook : Hook κ σ) (change : Catalog → Catalog) (s : σ) (c : Catalog) :
    changeWith hook change s c = ((hook s).1, (hook s).2, if (hook s).1.isOk then change c else c) := by
  rw [changeWith]
  rcases hook s with ⟨_ | _, s'⟩ <;> rfl

inductive Call (κ σ : Type) where
  | registration (hook : Hook κ σ) (row : Registration)
  | model (hook : Hook κ σ) (row : AircraftModel)

/-- The tables after some calls, what the hooks work on, and the registrations whose calls succeeded, in the
order of the calls. -/
structure History (σ : Type) where
  state : σ
  catalog : Catalog := {}
  rows : List Registration := []

namespace History

def step (h : History σ) : Call κ σ → History σ
  | .registration hook row =>
    let (result, state, catalog) := changeWith hook (·.setRegistration row) h.state h.catalog
    ⟨state, catalog, if result.isOk then h.rows ++ [row] else h.rows⟩
  | .model hook row =>
    let (_, state, catalog) := changeWith hook (·.setModel row) h.state h.catalog
    ⟨state, catalog, h.rows⟩

def run (s : σ) (calls : List (Call κ σ)) : History σ := calls.foldl step { state := s }

def lastRow? (rows : List Registration) (a : Address) : Option Registration :=
  (rows.filter (·.address = a)).getLast?

theorem lastRow?_append (rows : List Registration) (row : Registration) (a : Address) :
    lastRow? (rows ++ [row]) a = if a = row.address then some row else lastRow? rows a := by
  rw [lastRow?, List.filter_append]
  by_cases ha : a = row.address
  · simp [ha]
  · simp [lastRow?, ha, Ne.symm ha]

/-- The marks are in order, and each address has its last row. -/
structure Sound (h : History σ) : Prop where
  indexed : h.catalog.Indexed
  registered : ∀ a, h.catalog.registration? a = lastRow? h.rows a

theorem step_sound {h : History σ} (hs : h.Sound) (c : Call κ σ) : (h.step c).Sound := by
  cases c with
  | registration hook row =>
    simp only [step, changeWith_eq]
    cases (hook h.state).1 with
    | error _ => exact ⟨hs.indexed, hs.registered⟩
    | ok _ =>
      refine ⟨hs.indexed.setRegistration row, fun a => ?_⟩
      simp only [Except.isOk, Except.toBool, if_true]
      rw [registration?_setRegistration, lastRow?_append, hs.registered]
  | model hook row =>
    simp only [step, changeWith_eq]
    cases (hook h.state).1 with
    | error _ => exact ⟨hs.indexed, hs.registered⟩
    | ok _ => exact ⟨hs.indexed.setModel row, hs.registered⟩

theorem run_sound (s : σ) (calls : List (Call κ σ)) : (run s calls).Sound := by
  induction calls using List.reverseRecOn with
  | nil => exact ⟨.empty, fun _ => rfl⟩
  | append_singleton calls c ih =>
    rw [run, List.foldl_append]
    exact step_sound ih c

/-- After any calls a mark is kept just if somebody bears it, with all who do; a search for a mark gives these
addresses in ascending order; and each address has the row that was set last. A call whose hook fails changes no
table, and nor does one that sets again what was just set. -/
theorem run_is_indexed_by_mark (s₀ : σ) (calls : List (Call κ σ)) :
    let c := (run s₀ calls).catalog
    (∀ mark as, c.addresses.get? mark = some as ↔ as ≠ ∅ ∧ ∀ a, a ∈ as ↔ c.Bears a mark) ∧
      (∀ mark, (c.withMark mark).Pairwise (fun a b => a.val < b.val) ∧
        ∀ a, a ∈ c.withMark mark ↔ c.Bears a mark) ∧
      (∀ a, c.registration? a = lastRow? (run s₀ calls).rows a) ∧
      ∀ (hook : Hook κ σ) (row : Registration) (s : σ),
        let answer := changeWith hook (·.setRegistration row) s c
        answer.1 = (hook s).1 ∧ (∀ f, answer.1 = .error f → answer.2.2 = c) ∧
          (answer.1 = .ok () → answer.2.2 = c.setRegistration row ∧ ∀ (again : Hook κ σ) (s' : σ),
            (changeWith again (·.setRegistration row) s' answer.2.2).2.2 = answer.2.2) := by
  intro c
  have hs : (run s₀ calls).Sound := run_sound s₀ calls
  refine ⟨hs.indexed.addresses_get?_iff, fun mark => ⟨hs.indexed.withMark_ascending mark,
    fun a => hs.indexed.mem_withMark_iff a mark⟩, hs.registered, fun hook row s => ?_⟩
  simp only [changeWith_eq]
  refine ⟨trivial, fun f hf => ?_, fun hok => ?_⟩
  · rw [hf]
    rfl
  · have hmade : (if (hook s).1.isOk then c.setRegistration row else c) = c.setRegistration row := by
      rw [hok]
      rfl
    rw [hmade, setRegistration_setRegistration]
    exact ⟨rfl, fun again s' => ite_self _⟩

end History
end Catalog
end FlightTrace
