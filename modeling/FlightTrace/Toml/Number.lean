import FlightTrace.Calendar
import FlightTrace.Decimal.Binary64
import FlightTrace.Text.Numeral
import FlightTrace.Toml.Reader

/-! Numbers, dates and times in TOML. Single underscores may stand between digits. -/
namespace FlightTrace
namespace Toml

/-- Digits of a kind, and single underscores before any of them. -/
def spanDigits (p : Char → Bool) : List Char → List Char × List Char
  | [] => ([], [])
  | c :: cs =>
    if p c then
      let (ds, rest) := spanDigits p cs
      (c :: ds, rest)
    else if c = '_' ∧ cs.head?.any p then spanDigits p cs
    else ([], c :: cs)

/-- Digits of a kind, the first of them without an underscore. -/
def digits (p : Char → Bool) : Reader (List Char) := fun cs =>
  if cs.head?.any p then some (spanDigits p cs) else none

/-- Whether there is a minus sign. There may be a plus sign instead. -/
def sign : Reader Bool := fun cs =>
  match cs with
  | '-' :: cs => some (true, cs)
  | '+' :: cs => some (false, cs)
  | _ => some (false, cs)

/-- The sign and the digits of a whole number. Only a lone zero starts with a zero. -/
def whole : Reader (Bool × List Char) := do
  let negative ← sign
  let ds ← digits Text.isDigit
  guard (ds.head? = some '0' → ds.length = 1)
  return (negative, ds)

/-- Whole numbers of 64 bits with a sign. -/
abbrev Integer := { n : Int // -0x8000000000000000 ≤ n ∧ n < 0x8000000000000000 }

def Integer.ofInt? (n : Int) : Option Integer :=
  if h : -0x8000000000000000 ≤ n ∧ n < 0x8000000000000000 then some ⟨n, h⟩ else none

def decimalInteger : Reader Integer := do
  let (negative, ds) ← whole
  let n : Nat ← (Text.readNumeral 10 ds : Option Nat)
  (Integer.ofInt? (if negative then -n else n) : Option Integer)

/-- A number in another base, which a letter names. -/
def basedInteger (letter : Char) (base : Nat) : Reader Integer := do
  Reader.word ['0', letter]
  let ds ← digits fun c => (Text.baseDigit? base c).isSome
  let n : Nat ← (Text.readNumeral base ds : Option Nat)
  (Integer.ofInt? n : Option Integer)

def integer : Reader Integer :=
  basedInteger 'x' 16 <|> basedInteger 'o' 8 <|> basedInteger 'b' 2 <|> decimalInteger

/-- Whether digits times a power of ten are more than any binary fraction. -/
def overflows (ds : List Char) (e : Int) : Bool :=
  match Text.readNumeral 10 ds with
  | none => false
  | some n =>
    let top : Int := (Text.numeral 10 n).length + e
    if n = 0 ∨ top < 0 then false
    else if 400 < top then true
    else if e < 0 then (Binary64.ofRatio? n (Nat.pow 10 e.natAbs)).isNone
    else (Binary64.ofRatio? (n * Nat.pow 10 e.natAbs) 1).isNone

def fraction : Reader (List Char) := do
  Reader.mark '.'
  digits Text.isDigit

def exponent : Reader Int := do
  let _ ← Reader.one fun c => c = 'e' || c = 'E'
  let negative ← sign
  let n : Nat ← (Text.readNumeral 10 (← digits Text.isDigit) : Option Nat)
  return if negative then -n else n

/-- A number with a fraction or an exponent or both. One that is too great for a binary fraction is
refused, unless it is below zero. -/
def decimal : Reader Unit := do
  let (negative, ds) ← whole
  let fs ← fraction.maybe
  let e ← exponent.maybe
  guard (fs.isSome ∨ e.isSome)
  let fs := fs.getD []
  guard (negative ∨ ¬overflows (ds ++ fs) (e.getD 0 - fs.length))

def infinity : Reader Unit := do
  let _ ← sign
  Reader.word ['i', 'n', 'f'] <|> Reader.word ['n', 'a', 'n']

def real : Reader Unit := decimal <|> infinity

/-- A number of so many digits that is not above a limit. -/
def fixed (width limit : Nat) : Reader Nat := do
  let n : Nat ← (Text.readNumeral 10 (← Reader.exactly Text.isDigit width) : Option Nat)
  guard (n ≤ limit)
  return n

def date : Reader Unit := do
  let year ← fixed 4 9999
  Reader.mark '-'
  let month ← fixed 2 12
  Reader.mark '-'
  let day ← fixed 2 31
  guard (Calendar.Exists ⟨year, month, day⟩)

def clock : Reader Unit := do
  let _ ← fixed 2 23
  Reader.mark ':'
  let _ ← fixed 2 59
  Reader.mark ':'
  let _ ← fixed 2 60
  let _ ← (do Reader.mark '.'; let _ ← Reader.one Text.isDigit; Reader.many Text.isDigit).maybe

def offset : Reader Unit :=
  (do let _ ← Reader.one fun c => c = 'Z' || c = 'z') <|> do
    let _ ← Reader.one fun c => c = '+' || c = '-'
    let _ ← fixed 2 23
    Reader.mark ':'
    let _ ← fixed 2 59

/-- A date, a time of day, or both with or without an offset. -/
def moment : Reader Unit :=
  (do
    date
    let _ ← (do
      let _ ← Reader.one fun c => c = 'T' || c = 't' || c = ' '
      clock
      offset.maybe).maybe) <|> clock

end Toml
end FlightTrace
