import FlightTrace.Text.Numeral

/-! Bytes as text: two hexadecimal digits for each. -/
namespace FlightTrace
namespace Text

def hexBytes (bs : List UInt8) : String :=
  String.ofList (bs.flatMap fun b => [digitChar (b.toNat / 16), digitChar (b.toNat % 16)])

def readHexBytes : List Char → Option (List UInt8)
  | [] => some []
  | a :: b :: cs => do
    let n ← readNumeral 16 [a, b]
    return UInt8.ofNat n :: (← readHexBytes cs)
  | _ => none

end Text
end FlightTrace
