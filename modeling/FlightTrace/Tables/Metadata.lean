import FlightTrace.Json
import FlightTrace.OrderedMap
import FlightTrace.Tables.Hook

/-! Documents by key. The last one set under a key counts. -/
namespace FlightTrace

structure Metadata where
  documents : OrderedMap String Json := ∅

namespace Metadata

def get? (m : Metadata) (key : String) : Option Json := m.documents.get? key

def keys (m : Metadata) : List String := m.documents.keys

def size (m : Metadata) : Nat := m.documents.size

def isEmpty (m : Metadata) : Bool := m.documents.isEmpty

def set (m : Metadata) (key : String) (value : Json) : Metadata :=
  { m with documents := m.documents.insert key value }

def setWith {κ σ : Type} (hook : Hook κ σ) (key : String) (value : Json) (s : σ) (m : Metadata) :
    Except (Failure κ) Unit × σ × Metadata :=
  match hook s with
  | (.ok (), s) => (.ok (), s, m.set key value)
  | (.error f, s) => (.error f, s, m)

end Metadata
end FlightTrace
