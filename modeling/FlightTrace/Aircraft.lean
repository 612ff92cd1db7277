import FlightTrace.Identifier.Address
import FlightTrace.Identifier.WakeCategory

/-! Reference rows: the registration of one aircraft, and the description of one model. A
registration may name a model of which nothing is known. -/
namespace FlightTrace

structure Registration where
  address : Address
  mark : String
  model : Option String
deriving DecidableEq

structure AircraftModel where
  code : String
  name : Option String
  description : Option String
  wake : Option WakeCategory
deriving DecidableEq

/-- A registration together with its model, if that is known. -/
structure AircraftInfo where
  registration : Registration
  model : Option AircraftModel
deriving DecidableEq

end FlightTrace
