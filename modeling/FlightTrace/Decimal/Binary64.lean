/-! Finite binary fractions of 53 bits, as exact numbers. Results of arithmetic are rounded to the
nearest of them, a tie to the even one. -/
namespace FlightTrace

/-- The number `mantissa * 2 ^ exponent` with a sign. The mantissa has at most 53 bits, the exponent
lies between −1074 and 971, and the mantissa has all its bits unless the exponent is the least. -/
structure Binary64 where
  negative : Bool
  mantissa : Nat
  exponent : Int
deriving DecidableEq

namespace Binary64

def zero : Binary64 := ⟨false, 0, -1074⟩

def isZero (x : Binary64) : Bool := x.mantissa = 0

def neg (x : Binary64) : Binary64 := { x with negative := !x.negative }

/-- The nearest whole number to a quotient, the even one of two. -/
def roundDiv (n d : Nat) : Nat :=
  let q := n / d
  let r := n % d
  if d < 2 * r ∨ (2 * r = d ∧ q % 2 = 1) then q + 1 else q

/-- Numerator and denominator of a quotient divided by a power of two. -/
def scale (n d : Nat) (e : Int) : Nat × Nat :=
  if e < 0 then (n * Nat.pow 2 e.natAbs, d) else (n, d * Nat.pow 2 e.natAbs)

/-- The value nearest to a quotient, unless it is too great. -/
def ofRatio? (n d : Nat) : Option Binary64 :=
  if n = 0 then some zero
  else
    let e := max ((Nat.log2 n : Int) - Nat.log2 d - 53) (-1074)
    let s := scale n d e
    let e := if 0x20000000000000 ≤ s.1 / s.2 then e + 1 else e
    let s := scale n d e
    let m := roundDiv s.1 s.2
    let (m, e) := if m = 0x20000000000000 then (0x10000000000000, e + 1) else (m, e)
    if e ≤ 971 then some ⟨false, m, e⟩ else none

def ratio (x : Binary64) : Nat × Nat :=
  if x.exponent < 0 then (x.mantissa, Nat.pow 2 x.exponent.natAbs)
  else (x.mantissa * Nat.pow 2 x.exponent.natAbs, 1)

/-- The rounded product of two values without their signs. -/
def mul? (x y : Binary64) : Option Binary64 :=
  ofRatio? (x.ratio.1 * y.ratio.1) (x.ratio.2 * y.ratio.2)

def div? (x y : Binary64) : Option Binary64 :=
  ofRatio? (x.ratio.1 * y.ratio.2) (x.ratio.2 * y.ratio.1)

end Binary64
end FlightTrace
