import FlightTrace.Aircraft
import FlightTrace.Multimap
import FlightTrace.Tables.Hook

/-! The reference tables: registrations by address and, the other way round, addresses by
registration mark; and aircraft models by code. -/
namespace FlightTrace

structure Catalog where
  registrations : OrderedMap Address Registration := ∅
  addresses : Multimap String Address := ∅
  models : OrderedMap String AircraftModel := ∅

namespace Catalog

def setRegistration (c : Catalog) (row : Registration) : Catalog :=
  let addresses :=
    match c.registrations.get? row.address with
    | none => Multimap.enter c.addresses row.mark row.address
    | some old =>
      if old.mark = row.mark then c.addresses
      else Multimap.enter (Multimap.strike c.addresses old.mark row.address) row.mark row.address
  { c with addresses, registrations := c.registrations.insert row.address row }

def setModel (c : Catalog) (row : AircraftModel) : Catalog :=
  { c with models := c.models.insert row.code row }

def changeWith {κ σ : Type} (hook : Hook κ σ) (change : Catalog → Catalog) (s : σ) (c : Catalog) :
    Except (Failure κ) Unit × σ × Catalog :=
  match hook s with
  | (.ok (), s) => (.ok (), s, change c)
  | (.error f, s) => (.error f, s, c)

def registration? (c : Catalog) (a : Address) : Option Registration := c.registrations.get? a

def withMark (c : Catalog) (mark : String) : List Address :=
  (Multimap.values c.addresses mark).toList.filter fun a =>
    (c.registrations.get? a).any fun row => row.mark = mark

def model? (c : Catalog) (code : String) : Option AircraftModel := c.models.get? code

/-- The registration of an address together with the model that it names. -/
def describe? (c : Catalog) (a : Address) : Option AircraftInfo :=
  (c.registration? a).map fun row => ⟨row, row.model.bind c.model?⟩

end Catalog
end FlightTrace
