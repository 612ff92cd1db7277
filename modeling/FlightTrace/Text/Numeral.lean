/-! Numerals in a base of 2 to 36: digits are written in lower case and read in either case. -/
namespace FlightTrace
namespace Text

def digitChar (d : Nat) : Char :=
  if d < 10 then Char.ofNat (48 + d) else Char.ofNat (87 + d)

/-- The value of an ASCII digit or letter, up to thirty-five for a `z`. -/
def digitValue? (c : Char) : Option Nat :=
  let n := c.toNat
  if 48 ≤ n && n ≤ 57 then some (n - 48)
  else if 97 ≤ n && n ≤ 122 then some (n - 87)
  else if 65 ≤ n && n ≤ 90 then some (n - 55)
  else none

def baseDigit? (base : Nat) (c : Char) : Option Nat :=
  (digitValue? c).filter (· < base)

def isDigit (c : Char) : Bool := 48 ≤ c.toNat && c.toNat ≤ 57

/-- The digits of a number in a base of two more than `b`, most significant first. -/
def digits (b n : Nat) : List Nat :=
  if n < b + 2 then [n] else digits b (n / (b + 2)) ++ [n % (b + 2)]
termination_by n
decreasing_by exact Nat.div_lt_self (by omega) (by omega)

def numeral (base n : Nat) : List Char := (digits (base - 2) n).map digitChar

def decimal (n : Nat) : String := String.ofList (numeral 10 n)

def hex (n : Nat) : String := String.ofList (numeral 16 n)

/-- A numeral filled up with zeros on the left to a least width. -/
def padded (base width n : Nat) : String :=
  let cs := numeral base n
  String.ofList (List.replicate (width - cs.length) '0' ++ cs)

def readDigits (base : Nat) : Nat → List Char → Option Nat
  | n, [] => some n
  | n, c :: cs => (baseDigit? base c).bind fun d => readDigits base (n * base + d) cs

def readNumeral (base : Nat) : List Char → Option Nat
  | [] => none
  | cs => readDigits base 0 cs

/-- A numeral that may have one plus sign in front. -/
def readSigned (base : Nat) : List Char → Option Nat
  | '+' :: cs => readNumeral base cs
  | cs => readNumeral base cs

def integer (n : Int) : String :=
  match n with
  | .ofNat n => decimal n
  | .negSucc n => "-" ++ decimal (n + 1)

end Text
end FlightTrace
