import FlightTrace.Database
import FlightTrace.Document.Record

/-! Documents of a type under the keys of a database. -/
namespace FlightTrace

def Refusal.toError : Refusal → Error
  | malformed => .serialization .malformed
  | record f => .serialization (.record f)

namespace Metadata

def versionKey : String := "schema_version"

variable (α : Type) [Document α]

/-- The value under a key, if there is one. It must have the form of its type. -/
def read? (m : Metadata) (key : String) : Except Error (Option α) :=
  match m.get? key with
  | none => .ok none
  | some v =>
    match Document.ofJson v with
    | .ok a => .ok (some a)
    | .error r => .error r.toError

def require (m : Metadata) (key : String) : Except Error α :=
  match m.read? α key with
  | .ok (some a) => .ok a
  | .ok none => .error (.notFound (.metadata key))
  | .error e => .error e

def version? (m : Metadata) : Except Error (Option { n : Nat // n < 0x100000000 }) :=
  m.read? _ versionKey

end Metadata

namespace Database

variable {α : Type} [Document α]

def write (m : Medium) (now : Nat) (key : String) (a : α) (d : Database) :
    Except Error Unit × Database :=
  d.setDocument m now key (toJson a)

end Database
end FlightTrace
