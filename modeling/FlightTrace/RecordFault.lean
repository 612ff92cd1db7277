import FlightTrace.Identifier.Address
import FlightTrace.Text.Quoted

/-! Reasons for refusing a record, and their wording. -/
namespace FlightTrace

inductive RecordFault where
  | wideAddress (n : Nat)
  | unreadableAddress (text : String)
  | unreadableSquawk (text : String)
  | blankCallsign
  | invisibleSourceTag (char : Char)
  | unknownWakeCategory (text : String)
  | mixedTrack (first other : Address)
  | stated (text : String)
deriving DecidableEq

namespace RecordFault

def message : RecordFault → String
  | wideAddress n => s!"ICAO address 0x{Text.hex n} exceeds 24 bits"
  | unreadableAddress s => s!"invalid ICAO address: {Text.quote s}"
  | unreadableSquawk s => s!"invalid squawk code: {Text.quote s}"
  | blankCallsign => "blank callsign"
  | invisibleSourceTag c => s!"invalid data source tag: {Text.quoteChar c}"
  | unknownWakeCategory s => s!"invalid wake turbulence category: {Text.quote s}"
  | mixedTrack a b => s!"track mixes identities {a.text} and {b.text}"
  | stated s => s

end RecordFault
end FlightTrace
