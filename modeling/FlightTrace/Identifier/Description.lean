import FlightTrace.Identifier.Address
import FlightTrace.Identifier.Callsign
import FlightTrace.Identifier.Squawk

/-! Identifiers in words, with the kind before the text. -/
namespace FlightTrace

def Address.description (a : Address) : String := s!"IcaoAddress({a.text})"

def Squawk.description (c : Squawk) : String := s!"Squawk({c.text})"

def Callsign.description (c : Callsign) : String := s!"Callsign({c.text})"

end FlightTrace
