import FlightTrace.Identifier.Reading
import FlightTrace.Json

/-! Values that have a form as documents. Writing a value gives a document; reading one may be
refused, either because it has the wrong form or because the value breaks a rule of its type.

The fields of an object are read in the order in which they stand, so the first fault in that order
is the one reported; a field that is missing is noticed after that. The fields may also stand in an
array, in the order of their declaration. -/
namespace FlightTrace

inductive Refusal where
  | malformed
  | record (fault : RecordFault)
deriving DecidableEq

class Document (α : Type) where
  toJson : α → Json
  ofJson : Json → Except Refusal α

export Document (toJson)

namespace Document

abbrev Reader (α : Type) := Json → Except Refusal α

def checked {α : Type} : Except RecordFault α → Except Refusal α
  | .ok a => .ok a
  | .error f => .error (.record f)

def present {α : Type} : Option α → Except Refusal α
  | some a => .ok a
  | none => .error .malformed

def string : Reader String
  | .string s => .ok s
  | _ => .error .malformed

def nat (bound : Nat) : Reader { n : Nat // n < bound }
  | .number (.natural n _) => if h : n < bound then .ok ⟨n, h⟩ else .error .malformed
  | _ => .error .malformed

/-- A whole number of 64 bits with a sign. -/
def integer : Reader { n : Int // -0x8000000000000000 ≤ n ∧ n < 0x8000000000000000 }
  | .number (.natural n _) =>
    if h : n < 0x8000000000000000 then .ok ⟨n, by omega⟩ else .error .malformed
  | .number (.negative n h) => .ok ⟨-n, by omega⟩
  | _ => .error .malformed

def char : Reader Char
  | .string s =>
    match s.toList with
    | [c] => .ok c
    | _ => .error .malformed
  | _ => .error .malformed

def option {α : Type} (reader : Reader α) : Reader (Option α)
  | .null => .ok none
  | v => (reader v).map some

def list {α : Type} (reader : Reader α) : Reader (List α)
  | .array vs => vs.mapM reader
  | _ => .error .malformed

/-- A value named by one of several words: the word itself, or an object whose only field has that
name and holds nothing. -/
def word {α : Type} (ofName : String → Option α) : Reader α
  | .string s => present (ofName s)
  | .object [(s, v)] =>
    match ofName s, v with
    | some a, .null => .ok a
    | _, _ => .error .malformed
  | _ => .error .malformed

/-- How to read a value from named fields: a test for each field, in the order of declaration, and how
the value is put together. -/
structure FieldReader (α : Type) where
  tests : List (String × Reader Unit)
  build : (String → Option Json) → (positional : Bool) → Except Refusal α

namespace FieldReader

variable {α β : Type}

def required (name : String) (reader : Reader α) : FieldReader α where
  tests := [(name, fun v => (reader v).map fun _ => ())]
  build get _ :=
    match get name with
    | some v => reader v
    | none => .error .malformed

/-- A field that an object may leave out, though an array may not. -/
def optional (name : String) (reader : Reader α) : FieldReader (Option α) where
  tests := [(name, fun v => (option reader v).map fun _ => ())]
  build get positional :=
    match get name with
    | some v => option reader v
    | none => if positional then .error .malformed else .ok none

def withDefault (name : String) (reader : Reader α) (a : α) : FieldReader α where
  tests := [(name, fun v => (reader v).map fun _ => ())]
  build get _ :=
    match get name with
    | some v => reader v
    | none => .ok a

instance : Applicative FieldReader where
  pure a := ⟨[], fun _ _ => .ok a⟩
  seq f r :=
    ⟨f.tests ++ (r ()).tests, fun get positional => do
      let g ← f.build get positional
      let a ← (r ()).build get positional
      return g a⟩

/-- Tests the fields in the order in which they stand. Unknown ones are passed over. -/
def test (r : FieldReader α) (fields : List (String × Json)) : Except Refusal Unit :=
  fields.forM fun (k, v) =>
    match r.tests.lookup k with
    | some t => t v
    | none => .ok ()

def named (r : FieldReader α) : Reader α
  | .object fields => do
    r.test fields
    r.build (List.lookup · fields) false
  | _ => .error .malformed

/-- Reads an object, or an array with the fields in the order of declaration. -/
def read (r : FieldReader α) : Reader α
  | .array vs => do
    let fields := (r.tests.map (·.1)).zip vs
    r.test fields
    if r.tests.length < vs.length then .error .malformed else r.build (List.lookup · fields) true
  | v => r.named v

end FieldReader

end Document
end FlightTrace
