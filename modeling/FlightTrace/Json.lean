import FlightTrace.Decimal.Binary64
import FlightTrace.OrderedMap

/-! Documents in the style of JSON. A number keeps the form in which it was met: a whole number of 64
bits with or without a minus sign, or a binary fraction. The fields of an object stand in the
order of their names, each name once. -/
namespace FlightTrace

namespace Json

inductive Number where
  | natural (n : Nat) (bound : n < 0x10000000000000000)
  /-- The number below zero with this magnitude. -/
  | negative (n : Nat) (bound : 0 < n ∧ n ≤ 0x8000000000000000)
  | real (x : Binary64)
deriving DecidableEq

end Json

inductive Json where
  | null
  | bool (b : Bool)
  | number (n : Json.Number)
  | string (s : String)
  | array (items : List Json)
  | object (fields : List (String × Json))

namespace Json

instance : Inhabited Json := ⟨null⟩

/-- An object from fields in any order. Of two with one name the later counts. -/
def ofFields (fields : List (String × Json)) : Json :=
  object (fields.foldl (fun ps p => OrderedMap.insertList p.1 p.2 ps) [])

def ofNat (n : Nat) : Json :=
  if h : n < 0x10000000000000000 then number (.natural n h) else null

def ofInt (n : Int) : Json :=
  match n with
  | .ofNat n => ofNat n
  | .negSucc n =>
    if h : 0 < n + 1 ∧ n + 1 ≤ 0x8000000000000000 then number (.negative (n + 1) h) else null

def ofOption {α : Type} (f : α → Json) : Option α → Json
  | none => null
  | some a => f a

mutual

/-- Whether every object has its fields in strictly ascending order of names. -/
def Canonical : Json → Prop
  | array items => CanonicalItems items
  | object fields =>
    (fields.Pairwise fun a b => compare a.1 b.1 = .lt) ∧ CanonicalFields fields
  | _ => True

def CanonicalItems : List Json → Prop
  | [] => True
  | v :: vs => Canonical v ∧ CanonicalItems vs

def CanonicalFields : List (String × Json) → Prop
  | [] => True
  | (_, v) :: fs => Canonical v ∧ CanonicalFields fs

end

mutual

/-- How many arrays and objects stand inside each other. -/
def depth : Json → Nat
  | array items => itemsDepth items + 1
  | object fields => fieldsDepth fields + 1
  | _ => 0

def itemsDepth : List Json → Nat
  | [] => 0
  | v :: vs => max (depth v) (itemsDepth vs)

def fieldsDepth : List (String × Json) → Nat
  | [] => 0
  | (_, v) :: fs => max (depth v) (fieldsDepth fs)

end

end Json
end FlightTrace
