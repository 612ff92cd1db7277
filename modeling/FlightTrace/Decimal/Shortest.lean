import FlightTrace.Decimal.Binary64
import FlightTrace.Text.Numeral

/-! The shortest decimal that reads back as a given binary fraction, and of those the nearest. -/
namespace FlightTrace
namespace Binary64

/-- The ends of the interval of numbers that round to a value, and the value itself, all as multiples
of a quarter of its last place. -/
def neighbourhood (x : Binary64) : Nat × Nat × Nat :=
  let m := 4 * x.mantissa
  let below := if x.mantissa = 0x10000000000000 ∧ -1074 < x.exponent then 1 else 2
  (m - below, m, m + 2)

/-- Whether a decimal `c * 10 ^ k` lies between two ends, given as fractions of one denominator. -/
def liesWithin (closed : Bool) (low high d c : Nat) (k : Int) : Bool :=
  let n := if k < 0 then c * d else c * Nat.pow 10 k.natAbs * d
  let p := if k < 0 then Nat.pow 10 k.natAbs else 1
  if closed then low * p ≤ n && n ≤ high * p else low * p < n && n < high * p

/-- The multiple of a power of ten nearest to a value among its two neighbours that round to it. -/
def onGrid? (x : Binary64) (k : Int) : Option (Nat × Int) :=
  let (low, mid, high) := x.neighbourhood
  let e := x.exponent - 2
  let (f, d) := if e < 0 then (1, Nat.pow 2 e.natAbs) else (Nat.pow 2 e.natAbs, 1)
  let within := fun c => c ≠ 0 && liesWithin (x.mantissa % 2 = 0) (low * f) (high * f) d c k
  let (n, p) := if k < 0 then (mid * f * Nat.pow 10 k.natAbs, d) else (mid * f, d * Nat.pow 10 k.natAbs)
  let c := n / p
  match within c, within (c + 1) with
  | true, true => some (roundDiv n p, k)
  | true, false => some (c, k)
  | false, true => some (c + 1, k)
  | false, false => none

/-- Digits and decimal exponent of the shortest decimal. The coarsest grid with a point in the interval
has it; seventeen digits always suffice. -/
def shortest (x : Binary64) : Nat × Int :=
  let (n, d) := x.ratio
  let top : Int := (Text.numeral 10 n).length - (Text.numeral 10 d).length + 1
  ((List.range 22).findSome? fun (i : Nat) => x.onGrid? (top - i)).getD (0, 0)

end Binary64
end FlightTrace
