import FlightTrace.Proofs.Ordered
import FlightTrace.Tables

/-! Enriched traces are the rows of a join of three tables. What has been looked up for an aircraft is what would be
looked up again, so that it does not show that it is remembered. -/
namespace FlightTrace

namespace Catalog

/-- What the reference tables say about an address. A registration that names no model and one that names a model of
which nothing is known both stand alone. -/
inductive Describes (c : Catalog) (a : Address) : Option AircraftInfo → Prop where
  | unregistered (hrow : c.registration? a = none) : Describes c a none
  | modelUnnamed {row : Registration} (hrow : c.registration? a = some row) (hnone : row.model = none) :
    Describes c a (some ⟨row, none⟩)
  | modelUnknown {row : Registration} {code : String} (hrow : c.registration? a = some row)
    (hcode : row.model = some code) (hmodel : c.model? code = none) : Describes c a (some ⟨row, none⟩)
  | modelKnown {row : Registration} {code : String} {model : AircraftModel} (hrow : c.registration? a = some row)
    (hcode : row.model = some code) (hmodel : c.model? code = some model) : Describes c a (some ⟨row, some model⟩)

theorem describes_iff {c : Catalog} {a : Address} {info : Option AircraftInfo} :
    c.Describes a info ↔ c.describe? a = info := by
  rw [describe?]
  constructor
  · intro h
    cases h with
    | unregistered hrow => rw [hrow]; rfl
    | modelUnnamed hrow hnone => rw [hrow, Option.map_some, hnone]; rfl
    | modelUnknown hrow hcode hmodel => rw [hrow, Option.map_some, hcode, Option.bind_some, hmodel]
    | modelKnown hrow hcode hmodel => rw [hrow, Option.map_some, hcode, Option.bind_some, hmodel]
  · rintro rfl
    cases hrow : c.registration? a with
    | none => exact .unregistered hrow
    | some row =>
      rw [Option.map_some]
      cases hcode : row.model with
      | none => exact .modelUnnamed hrow hcode
      | some code =>
        rw [Option.bind_some]
        cases hmodel : c.model? code with
        | none => exact .modelUnknown hrow hcode hmodel
        | some model => exact .modelKnown hrow hcode hmodel

end Catalog

namespace Enrichment

variable {c : Catalog} {t : Tags} {known : Known}

def Known.Agrees (known : Known) (c : Catalog) (t : Tags) : Prop :=
  ∀ a found, known.get? a = some found → found = lookUp c t a

theorem Known.agrees_empty (c : Catalog) (t : Tags) : Known.Agrees ∅ c t := by
  intro a found hnone
  rw [OrderedMap.get?_empty] at hnone
  cases hnone

theorem Known.Agrees.insert (h : known.Agrees c t) (a : Address) :
    Known.Agrees (known.insert a (lookUp c t a)) c t := by
  intro b found hb
  rw [OrderedMap.get?_insert] at hb
  by_cases hab : b = a
  · rw [if_pos hab] at hb
    rw [hab]
    exact (Option.some.inj hb).symm
  · rw [if_neg hab] at hb
    exact h b found hb

def row (c : Catalog) (t : Tags) (r : Trace) : EnrichedTrace := ⟨r, c.describe? r.address, t.tagsOf r.address⟩

theorem enrichFrom_eq (h : known.Agrees c t) (rs : List Trace) : enrichFrom c t known rs = rs.map (row c t) := by
  induction rs generalizing known with
  | nil => rfl
  | cons r rs ih =>
    rw [enrichFrom, List.map_cons]
    cases hknown : known.get? r.address with
    | some found =>
      rw [h r.address found hknown]
      exact congrArg (row c t r :: ·) (ih h)
    | none => exact congrArg (row c t r :: ·) (ih (h.insert r.address))

end Enrichment

namespace Tables

variable {t t' : Tables} {r : Trace} {e e' : EnrichedTrace}

/-- A row of the join: the trace as it was, what the reference tables say about its aircraft, and all tags that the
aircraft has. -/
structure Joins (t : Tables) (r : Trace) (e : EnrichedTrace) : Prop where
  trace : e.trace = r
  info : t.catalog.Describes r.address e.info
  tags : ∀ tag, tag ∈ e.tags ↔ t.tags.contains r.address tag = true

theorem joins_iff : t.Joins r e ↔ e = Enrichment.row t.catalog t.tags r := by
  have htags (tag : String) : tag ∈ t.tags.tagsOf r.address ↔ t.tags.contains r.address tag = true :=
    OrderedSet.contains_iff.symm
  constructor
  · rintro ⟨rfl, hinfo, hset⟩
    obtain ⟨r, info, tags⟩ := e
    have hi : t.catalog.describe? r.address = info := Catalog.describes_iff.mp hinfo
    have ht : tags = t.tags.tagsOf r.address := OrderedSet.ext fun tag => (hset tag).trans (htags tag).symm
    rw [Enrichment.row, hi, ht]
  · rintro rfl
    exact ⟨rfl, Catalog.describes_iff.mpr rfl, htags⟩

theorem enrich_eq (t : Tables) (rs : List Trace) : t.enrich rs = rs.map (Enrichment.row t.catalog t.tags) :=
  Enrichment.enrichFrom_eq (Enrichment.Known.agrees_empty t.catalog t.tags) rs

/-- Whatever the tables hold and whichever traces are enriched, in any order and with any aircraft in them as often as
may be, the answer is the list of their rows in the join of the tables, one for each trace in the place of the trace.
It depends on nothing but what the tables say about the aircraft of the traces, and the traces before a trace do not
change its row. The tables are only read. -/
theorem enrich_is_join (t : Tables) (rs : List Trace) :
    (∀ es, t.enrich rs = es ↔ List.Forall₂ t.Joins rs es) ∧
    (t.enrich rs).length = rs.length ∧ (t.enrich rs).map (·.trace) = rs ∧
    (∀ (i : Nat) r, rs[i]? = some r → ∃ e, (t.enrich rs)[i]? = some e ∧ t.Joins r e ∧ t.enrich [r] = [e]) ∧
    ∀ t' : Tables, (∀ r ∈ rs, t'.catalog.describe? r.address = t.catalog.describe? r.address ∧
      t'.tags.tagsOf r.address = t.tags.tagsOf r.address) → t'.enrich rs = t.enrich rs := by
  have hjoins : t.Joins = fun r e => Enrichment.row t.catalog t.tags r = e :=
    funext₂ fun r e => propext (joins_iff.trans eq_comm)
  simp only [enrich_eq]
  refine ⟨fun es => ?_, List.length_map _, ?_, fun i r hr => ?_, fun t' halike => ?_⟩
  · rw [← List.forall₂_eq_eq_eq, List.forall₂_map_left_iff, hjoins]
  · rw [List.map_map]
    exact List.map_id rs
  · refine ⟨Enrichment.row t.catalog t.tags r, ?_, joins_iff.mpr rfl, rfl⟩
    rw [List.getElem?_map, hr]
    rfl
  · refine List.map_congr_left fun r hr => ?_
    obtain ⟨hinfo, htags⟩ := halike r hr
    rw [Enrichment.row, Enrichment.row, hinfo, htags]

end Tables
end FlightTrace
