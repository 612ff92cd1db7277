import FlightTrace.Instant
import FlightTrace.Text.Blank
import FlightTrace.Text.Numeral

/-! The text of an instant. It is written as `1970-01-01T00:00:00Z`, with three, six or nine decimals
where they are needed, and a sign where the year has not four digits. More is read than is written:
blanks around the numbers, one digit where two are usual, and any offset below a day. -/
namespace FlightTrace
namespace Instant

def yearText (y : Int) : String :=
  if 0 ≤ y ∧ y ≤ 9999 then Text.padded 10 4 y.toNat
  else (if y < 0 then "-" else "+") ++ Text.padded 10 4 y.natAbs

/-- The decimals of a second, in groups of three. -/
def fractionText (n : Nat) : String :=
  if n = 0 then ""
  else if n % 1000000 = 0 then "." ++ Text.padded 10 3 (n / 1000000)
  else if n % 1000 = 0 then "." ++ Text.padded 10 6 (n / 1000)
  else "." ++ Text.padded 10 9 n

def text (t : Instant) : String :=
  let date := Calendar.ofDayNumber (t.second / 86400)
  let s := (t.second % 86400).toNat
  let leap := t.nano / 1000000000
  let two := Text.padded 10 2
  s!"{yearText date.year}-{two date.month}-{two date.day}T{two (s / 3600)}:{two (s / 60 % 60)}:{two (s % 60 + leap)}{fractionText (t.nano % 1000000000)}Z"

def digitsValue (ds : List Char) : Nat := ds.foldl (fun n d => 10 * n + (d.toNat - 48)) 0

/-- At most so many digits from the front, and what follows them. -/
def spanDigits (width : Nat) (cs : List Char) : List Char × List Char :=
  let ds := (cs.take width).takeWhile Text.isDigit
  (ds, cs.drop ds.length)

/-- A number of at least one digit, after any blanks. -/
def readField (width : Nat) (cs : List Char) : Option (Nat × List Char) :=
  let (ds, rest) := spanDigits width (cs.dropWhile Text.isBlank)
  if ds.isEmpty then none else some (digitsValue ds, rest)

/-- A year has at most four digits unless a sign stands before it. -/
def readYear (cs : List Char) : Option (Int × List Char) :=
  match cs.dropWhile Text.isBlank with
  | '-' :: rest =>
    let (ds, rest') := spanDigits rest.length rest
    if ds.isEmpty then none else some (-(digitsValue ds : Int), rest')
  | '+' :: rest =>
    let (ds, rest') := spanDigits rest.length rest
    if ds.isEmpty then none else some ((digitsValue ds : Int), rest')
  | rest => (readField 4 rest).map fun (n, rest') => ((n : Int), rest')

/-- A mark between two numbers, after any blanks. -/
def readMark (c : Char) (cs : List Char) : Option (List Char) :=
  match cs.dropWhile Text.isBlank with
  | d :: rest => if d = c then some rest else none
  | [] => none

/-- The decimals after a point. Those beyond the ninth are dropped. -/
def readFraction (cs : List Char) : Option (Nat × List Char) :=
  match cs with
  | '.' :: rest =>
    let (ds, rest') := spanDigits 9 rest
    if ds.isEmpty then none
    else some (digitsValue ds * Nat.pow 10 (9 - ds.length), rest'.dropWhile Text.isDigit)
  | _ => some (0, cs)

/-- Two digits for the hours and two for the minutes of an offset, in seconds. -/
def readOffsetParts (cs : List Char) : Option (Nat × List Char) := do
  let (hs, rest) := spanDigits 2 cs
  guard (hs.length = 2)
  let (ms, rest') := spanDigits 2 (rest.dropWhile fun c => c = ':' || Text.isBlank c)
  guard (ms.length = 2 ∧ digitsValue ms < 60)
  return (digitsValue hs * 3600 + digitsValue ms * 60, rest')

def readOffset (cs : List Char) : Option (Int × List Char) :=
  match cs.dropWhile Text.isBlank with
  | 'Z' :: rest | 'z' :: rest => some (0, rest)
  | '+' :: rest => (readOffsetParts rest).map fun (n, rest') => ((n : Int), rest')
  | '-' :: rest | '\u2212' :: rest => (readOffsetParts rest).map fun (n, rest') => (-(n : Int), rest')
  | u :: t :: c :: rest =>
    if (u = 'U' || u = 'u') && (t = 'T' || t = 't') && (c = 'C' || c = 'c') then some (0, rest)
    else none
  | _ => none

/-- The instant of a local date and time, when both exist. Second sixty is a leap second. -/
def ofLocal? (date : Date) (hour minute second nano : Nat) (offset : Int) : Option Instant :=
  if -262143 ≤ date.year ∧ date.year ≤ 262142 ∧ Calendar.Exists date ∧ hour < 24 ∧ minute < 60 ∧
      second ≤ 60 ∧ offset.natAbs < 86400 then
    let clock := hour * 3600 + minute * 60 + min second 59
    let nano := if second = 60 then nano + 1000000000 else nano
    ofParts? (Calendar.dayNumber date * 86400 + clock - offset) nano
  else none

def ofChars? (cs : List Char) : Option Instant := do
  let (year, cs) ← readYear cs
  let cs ← readMark '-' cs
  let (month, cs) ← readField 2 cs
  let cs ← readMark '-' cs
  let (day, cs) ← readField 2 cs
  let cs ← match cs with
    | 'T' :: cs | 't' :: cs | ' ' :: cs => some cs
    | _ => none
  let (hour, cs) ← readField 2 cs
  let cs ← readMark ':' cs
  let (minute, cs) ← readField 2 cs
  let cs ← readMark ':' cs
  let (second, cs) ← readField 2 cs
  let (nano, cs) ← readFraction cs
  let (offset, cs) ← readOffset cs
  guard (cs.all Text.isBlank)
  ofLocal? ⟨year, month, day⟩ hour minute second nano offset

def ofText? (s : String) : Option Instant := ofChars? s.toList

end Instant
end FlightTrace
