import FlightTrace.Text.Numeral

/-! Lengths of time in words: whole milliseconds below a second, else seconds with as many
decimals as are needed. -/
namespace FlightTrace
namespace Text

/-- The decimals of a fraction without its last zeros, after a point unless nothing is left. -/
def decimals (width n : Nat) : String :=
  let cs := ((padded 10 width n).toList.reverse.dropWhile (· == '0')).reverse
  if cs.isEmpty then "" else String.ofList ('.' :: cs)

def duration (milliseconds : Nat) : String :=
  if milliseconds = 0 then "0ns"
  else if milliseconds < 1000 then decimal milliseconds ++ "ms"
  else decimal (milliseconds / 1000) ++ decimals 3 (milliseconds % 1000) ++ "s"

end Text
end FlightTrace
