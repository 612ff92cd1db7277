import FlightTrace.Document
import FlightTrace.Identifier.RecordId
import FlightTrace.Instant.Text
import FlightTrace.TimeRange

/-! Documents of instants, identifiers and ranges. -/
namespace FlightTrace

open Document

instance : Document String := ⟨.string, string⟩

instance : Document { n : Nat // n < 0x100000000 } where
  toJson n := .ofNat n
  ofJson := nat _

instance : Document Instant where
  toJson t := .string t.text
  ofJson v := do present (Instant.ofText? (← string v))

instance : Document Address where
  toJson a := .ofNat a.val
  ofJson v := do checked (Address.ofNat (← nat (0x100000000) v).val)

instance : Document Squawk where
  toJson c := .ofNat c.val
  ofJson v := do
    let n ← nat 65536 v
    return ⟨n.val, n.property⟩

instance : Document Callsign where
  toJson c := .string c.text
  ofJson v := do checked (Callsign.ofText (← string v))

instance : Document SourceTag where
  toJson t := .string (String.singleton t.char)
  ofJson v := do checked (SourceTag.ofChar (← char v))

instance : Document RecordId where
  toJson i := .ofNat i.val
  ofJson v := do
    let n ← nat (0x10000000000000000) v
    return ⟨n.val, n.property⟩

def WakeCategory.ofLetter? (s : String) : Option WakeCategory :=
  match s with
  | "L" => some .light
  | "M" => some .medium
  | "H" => some .heavy
  | "J" => some .super
  | _ => none

instance : Document WakeCategory where
  toJson w := .string (String.singleton w.letter)
  ofJson := word WakeCategory.ofLetter?

instance {α : Type} [Document α] : Document (Bound α) where
  toJson
    | .unbounded => .string "Unbounded"
    | .included a => .object [("Included", toJson a)]
    | .excluded a => .object [("Excluded", toJson a)]
  ofJson
    | .string "Unbounded" => .ok .unbounded
    | .object [("Unbounded", .null)] => .ok .unbounded
    | .object [("Included", v)] => (ofJson v).map .included
    | .object [("Excluded", v)] => (ofJson v).map .excluded
    | _ => .error .malformed

instance : Document TimeRange where
  toJson r := .ofFields [("start", toJson r.lower), ("end", toJson r.upper)]
  ofJson := FieldReader.read
    (TimeRange.mk <$> .required "start" ofJson <*> .required "end" ofJson)

end FlightTrace
