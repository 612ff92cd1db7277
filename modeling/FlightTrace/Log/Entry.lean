import FlightTrace.Aircraft
import FlightTrace.Binary
import FlightTrace.Identifier.Reading
import FlightTrace.Instant.Text
import FlightTrace.Json.Text
import FlightTrace.Trace

/-! Log entries: one for each change of the store, with the bytes that stand for it. A value that its
type would refuse is not read back. -/
namespace FlightTrace

namespace Log

inductive Entry where
  | trace (trace : Trace)
  | registration (row : Registration)
  | model (row : AircraftModel)
  | tagAdded (address : Address) (tag : String)
  | tagRemoved (address : Address) (tag : String)
  /-- A document stored under a key, as text. -/
  | document (key text : String)
deriving DecidableEq

namespace Entry

def ofDocument (key : String) (value : Json) : Entry := document key value.text

def kind : Entry → String
  | trace _ => "trace_append"
  | registration _ => "registration_upsert"
  | model _ => "model_upsert"
  | tagAdded _ _ => "tag_add"
  | tagRemoved _ _ => "tag_remove"
  | document _ _ => "metadata_set"

def index : Entry → Nat
  | trace _ => 0
  | registration _ => 1
  | model _ => 2
  | tagAdded _ _ => 3
  | tagRemoved _ _ => 4
  | document _ _ => 5

open Binary

def address (a : Address) : List UInt8 := natural 4 a.val

def readAddress : Reader Address := do (Address.ofNat? (← readNatural 4) : Option Address)

def instant (t : Instant) : List UInt8 := text t.text

def readInstant : Reader Instant := do (Instant.ofText? (← readText) : Option Instant)

def callsign (c : Callsign) : List UInt8 := text c.text

def readCallsign : Reader Callsign := do (Callsign.ofText? (← readText) : Option Callsign)

def squawk (c : Squawk) : List UInt8 := natural 2 c.val

def readSquawk : Reader Squawk := do (Squawk.ofNat? (← readNatural 2) : Option Squawk)

/-- A source tag is one character of one byte. -/
def source (t : SourceTag) : List UInt8 := natural 1 t.char.toNat

def readSource : Reader SourceTag := do
  (SourceTag.ofChar? (Char.ofNat (← readNatural 1)) : Option SourceTag)

def wake (w : WakeCategory) : List UInt8 := natural 4 w.rank

def readWake : Reader WakeCategory := do (WakeCategory.ofRank? (← readNatural 4) : Option WakeCategory)

def bytes (e : Entry) : List UInt8 :=
  natural 4 e.index ++
    match e with
    | trace t =>
      instant t.time ++ address t.address ++ Binary.option callsign t.callsign ++
        Binary.option squawk t.squawk ++ Binary.option source t.source
    | registration r => address r.address ++ text r.mark ++ Binary.option text r.model
    | model m =>
      text m.code ++ Binary.option text m.name ++ Binary.option text m.description ++
        Binary.option wake m.wake
    | tagAdded a tag => address a ++ text tag
    | tagRemoved a tag => address a ++ text tag
    | document k v => text k ++ text v

def size (e : Entry) : Nat :=
  4 + match e with
    | trace t =>
      textSize t.time.text + 4 + optionSize (fun c => textSize c.text) t.callsign +
        optionSize (fun _ => 2) t.squawk + optionSize (fun _ => 1) t.source
    | registration r => 4 + textSize r.mark + optionSize textSize r.model
    | model m =>
      textSize m.code + optionSize textSize m.name + optionSize textSize m.description +
        optionSize (fun _ => 4) m.wake
    | tagAdded _ tag => 4 + textSize tag
    | tagRemoved _ tag => 4 + textSize tag
    | document k v => textSize k + textSize v

@[simp] theorem length_bytes (e : Entry) : e.bytes.length = e.size := by
  have h₁ : ∀ c : Callsign, (callsign c).length = textSize c.text := fun c => by simp [callsign]
  have h₂ : ∀ c : Squawk, (squawk c).length = 2 := fun c => by simp [squawk]
  have h₃ : ∀ t : SourceTag, (source t).length = 1 := fun t => by simp [source]
  have h₄ : ∀ w : WakeCategory, (wake w).length = 4 := fun w => by simp [wake]
  cases e <;>
    simp [bytes, size, address, instant, length_option h₁, length_option h₂, length_option h₃,
      length_option h₄, length_option length_text, Nat.add_assoc]

def readTrace : Reader Trace := do
  return ⟨← readInstant, ← readAddress, ← readOption readCallsign, ← readOption readSquawk,
    ← readOption readSource⟩

def readRegistration : Reader Registration := do
  return ⟨← readAddress, ← readText, ← readOption readText⟩

def readModel : Reader AircraftModel := do
  return ⟨← readText, ← readOption readText, ← readOption readText, ← readOption readWake⟩

def read : Reader Entry := do
  match ← readNatural 4 with
  | 0 => return .trace (← readTrace)
  | 1 => return .registration (← readRegistration)
  | 2 => return .model (← readModel)
  | 3 => return .tagAdded (← readAddress) (← readText)
  | 4 => return .tagRemoved (← readAddress) (← readText)
  | 5 => return .document (← readText) (← readText)
  | _ => failure

/-- The entry at the front of some bytes. Whatever follows it is ignored. -/
def ofBytes? (bs : List UInt8) : Option Entry := (read bs).map (·.1)

end Entry
end Log
end FlightTrace
