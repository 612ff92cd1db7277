import FlightTrace.Multimap
import FlightTrace.Tables.Hook

/-! Tags on aircraft addresses, seen from the address and from the tag. Each pair of an address and a
tag stands once in both. -/
namespace FlightTrace

structure Tags where
  byAddress : Multimap Address String := ∅
  byTag : Multimap String Address := ∅

namespace Tags

def tagsOf (t : Tags) (a : Address) : OrderedSet String := Multimap.values t.byAddress a

def contains (t : Tags) (a : Address) (tag : String) : Bool := (t.tagsOf a).contains tag

def addressesWith (t : Tags) (tag : String) : OrderedSet Address :=
  (Multimap.values t.byTag tag).filter fun a => t.contains a tag

def size (t : Tags) : Nat := t.byTag.size

def insert (t : Tags) (a : Address) (tag : String) : Tags :=
  ⟨Multimap.enter t.byAddress a tag, Multimap.enter t.byTag tag a⟩

def erase (t : Tags) (a : Address) (tag : String) : Tags :=
  ⟨Multimap.strike t.byAddress a tag, Multimap.strike t.byTag tag a⟩

/-- Adds a pair that is not there yet. The hook is asked only about such a pair. -/
def addWith {κ σ : Type} (hook : Hook κ σ) (a : Address) (tag : String) (s : σ) (t : Tags) :
    Except (Failure κ) Unit × σ × Tags :=
  if t.contains a tag then (.error (.error (.duplicateTag a tag)), s, t)
  else
    match hook s with
    | (.ok (), s) => (.ok (), s, t.insert a tag)
    | (.error f, s) => (.error f, s, t)

/-- Removes a pair and says whether it was there. The hook is asked only about such a pair. -/
def removeWith {κ σ : Type} (hook : Hook κ σ) (a : Address) (tag : String) (s : σ) (t : Tags) :
    Except (Failure κ) Bool × σ × Tags :=
  if t.contains a tag then
    match hook s with
    | (.ok (), s) => (.ok true, s, t.erase a tag)
    | (.error f, s) => (.error f, s, t)
  else (.ok false, s, t)

end Tags
end FlightTrace
