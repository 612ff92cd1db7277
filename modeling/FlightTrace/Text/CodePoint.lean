/-! Characters from their numbers. The numbers of surrogates stand for none. -/
namespace FlightTrace
namespace Text

def ofCodePoint? (n : Nat) : Option Char :=
  if h : n.isValidChar then some (Char.ofNatAux n h) else none

end Text
end FlightTrace
