import FlightTrace.Text.Numeral
import FlightTrace.Text.Invisible

/-! Text in quotation marks, for messages. The mark itself, the backslash and the usual controls
have short escapes; every other character that cannot be seen is given by its number. -/
namespace FlightTrace
namespace Text

/-- What stands for a character between two quotation marks of the given kind. -/
def escape (mark c : Char) : List Char :=
  if c = mark || c = '\x5c' then ['\x5c', c]
  else if c = '\x00' then ['\x5c', '0']
  else if c = '\t' then ['\x5c', 't']
  else if c = '\n' then ['\x5c', 'n']
  else if c = '\r' then ['\x5c', 'r']
  else if isInvisible c then ['\x5c', 'u', '\x7b'] ++ numeral 16 c.toNat ++ ['\x7d']
  else [c]

def quoteWith (mark : Char) (cs : List Char) : String :=
  String.ofList (mark :: cs.flatMap (escape mark) ++ [mark])

def quote (s : String) : String := quoteWith '\x22' s.toList

def quoteChar (c : Char) : String := quoteWith '\x27' [c]

end Text
end FlightTrace
