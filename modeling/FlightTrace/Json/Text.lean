import FlightTrace.Decimal.Shortest
import FlightTrace.Json

/-! The compact text of a document: no blanks, and no escape that is not needed. -/
namespace FlightTrace
namespace Json

def escape (c : Char) : List Char :=
  if c = '\x22' || c = '\x5c' then ['\x5c', c]
  else if c = '\n' then ['\x5c', 'n']
  else if c = '\r' then ['\x5c', 'r']
  else if c = '\t' then ['\x5c', 't']
  else if c = '\x08' then ['\x5c', 'b']
  else if c = '\x0c' then ['\x5c', 'f']
  else if c.toNat < 32 then ['\x5c', 'u', '0', '0'] ++ (Text.padded 16 2 c.toNat).toList
  else [c]

def stringChars (s : String) : List Char :=
  '\x22' :: s.toList.flatMap escape ++ ['\x22']

/-- Binary fractions show a point or an exponent. Values from 0.00001 up to 10 ^ 16 are written
without an exponent, and an exponent always shows its sign. -/
def realChars (x : Binary64) : List Char :=
  let sign := if x.negative then ['-'] else []
  if x.isZero then sign ++ ['0', '.', '0']
  else
    let (c, k) := x.shortest
    let ds := Text.numeral 10 c
    let point : Int := ds.length + k
    let body :=
      if 0 ≤ k ∧ point ≤ 16 then ds ++ List.replicate k.toNat '0' ++ ['.', '0']
      else if 0 < point ∧ point ≤ 16 then ds.take point.toNat ++ '.' :: ds.drop point.toNat
      else if -5 < point ∧ point ≤ 0 then
        '0' :: '.' :: List.replicate point.natAbs '0' ++ ds
      else
        let tail := if ds.length = 1 then [] else '.' :: ds.drop 1
        let up := if 0 < point then ['+'] else []
        ds.take 1 ++ tail ++ 'e' :: up ++ (Text.integer (point - 1)).toList
    sign ++ body

def Number.chars : Number → List Char
  | natural n _ => Text.numeral 10 n
  | negative n _ => '-' :: Text.numeral 10 n
  | real x => realChars x

mutual

def chars : Json → List Char
  | null => ['n', 'u', 'l', 'l']
  | bool true => ['t', 'r', 'u', 'e']
  | bool false => ['f', 'a', 'l', 's', 'e']
  | number n => n.chars
  | string s => stringChars s
  | array items => '[' :: itemsChars items ++ [']']
  | object fields => '\x7b' :: fieldsChars fields ++ ['\x7d']

def itemsChars : List Json → List Char
  | [] => []
  | [v] => chars v
  | v :: w :: vs => chars v ++ ',' :: itemsChars (w :: vs)

def fieldsChars : List (String × Json) → List Char
  | [] => []
  | [(k, v)] => stringChars k ++ ':' :: chars v
  | (k, v) :: f :: fs => stringChars k ++ ':' :: chars v ++ ',' :: fieldsChars (f :: fs)

end

def text (v : Json) : String := String.ofList v.chars

end Json
end FlightTrace
