import FlightTrace.Json
import FlightTrace.Text.CodePoint
import FlightTrace.Text.Numeral

/-! Reading a document from text. Every reader takes what it needs from the front of the characters
and leaves the rest. Arrays and objects may stand inside each other 127 deep. -/
namespace FlightTrace
namespace Json

def isSpace (c : Char) : Bool := c = ' ' || c = '\n' || c = '\t' || c = '\r'

def readHex (a b c d : Char) : Option Nat := Text.readNumeral 16 [a, b, c, d]

/-- The character of two numbers from the range of surrogates. -/
def ofSurrogates? (high low : Nat) : Option Char :=
  if 0xd800 ≤ high ∧ high < 0xdc00 ∧ 0xdc00 ≤ low ∧ low < 0xe000 then
    some (Char.ofNat (0x10000 + (high - 0xd800) * 0x400 + (low - 0xdc00)))
  else none

/-- Four hexadecimal digits, after a `u`. The first half of a surrogate pair needs the second. -/
def readCodePoint (n : Nat) (cs : List Char) : Option (Char × List Char) :=
  if 0xd800 ≤ n ∧ n < 0xe000 then
    match cs with
    | '\x5c' :: 'u' :: a :: b :: c :: d :: rest =>
      ((readHex a b c d).bind (ofSurrogates? n)).map (·, rest)
    | _ => none
  else (Text.ofCodePoint? n).map (·, cs)

def readEscape : List Char → Option (Char × List Char)
  | 'u' :: a :: b :: c :: d :: rest => (readHex a b c d).bind (readCodePoint · rest)
  | '\x22' :: rest => some ('\x22', rest)
  | '\x5c' :: rest => some ('\x5c', rest)
  | '/' :: rest => some ('/', rest)
  | 'b' :: rest => some ('\x08', rest)
  | 'f' :: rest => some ('\x0c', rest)
  | 'n' :: rest => some ('\n', rest)
  | 'r' :: rest => some ('\r', rest)
  | 't' :: rest => some ('\t', rest)
  | _ => none

theorem length_of_readCodePoint {n : Nat} {cs rest : List Char} {c : Char}
    (h : readCodePoint n cs = some (c, rest)) : rest.length ≤ cs.length := by
  unfold readCodePoint at h
  split at h
  · split at h
    · obtain ⟨x, -, hx⟩ := Option.map_eq_some_iff.mp h
      obtain ⟨-, rfl⟩ := Prod.mk.inj hx
      simp only [List.length_cons]
      omega
    · simp at h
  · obtain ⟨x, -, hx⟩ := Option.map_eq_some_iff.mp h
    obtain ⟨-, rfl⟩ := Prod.mk.inj hx
    exact Nat.le_refl _

theorem length_of_readEscape {cs rest : List Char} {c : Char} (h : readEscape cs = some (c, rest)) :
    rest.length < cs.length := by
  unfold readEscape at h
  split at h
  · obtain ⟨n, -, h⟩ := Option.bind_eq_some_iff.mp h
    have := length_of_readCodePoint h
    simp only [List.length_cons]
    omega
  all_goals simp at h
  all_goals
    obtain ⟨-, rfl⟩ := h
    simp

/-- The characters of a string after its opening mark, up to the closing one. -/
def readStringChars : List Char → Option (List Char × List Char)
  | [] => none
  | c :: rest =>
    if c = '\x22' then some ([], rest)
    else if c = '\x5c' then
      match h : readEscape rest with
      | some (x, rest') =>
        have := length_of_readEscape h
        (readStringChars rest').map fun (xs, end') => (x :: xs, end')
      | none => none
    else if c.toNat < 32 then none
    else (readStringChars rest).map fun (xs, end') => (c :: xs, end')
termination_by cs => cs.length
decreasing_by
  all_goals
    simp only [List.length_cons]
    omega

def readString (cs : List Char) : Option (String × List Char) :=
  match cs with
  | '\x22' :: rest => (readStringChars rest).map fun (xs, rest') => (String.ofList xs, rest')
  | _ => none

/-- Appends digits to a number as long as it keeps to 64 bits, and counts those that were taken. -/
def takeDigits : Nat → List Char → Nat × Nat
  | n, [] => (n, 0)
  | n, c :: cs =>
    let m := n * 10 + (c.toNat - 48)
    if m < 0x10000000000000000 then
      let (r, k) := takeDigits m cs
      (r, k + 1)
    else (n, 0)

def powerOfTen? (k : Nat) : Option Binary64 := Binary64.ofRatio? (Nat.pow 10 k) 1

def divByTen? (x : Binary64) (k : Nat) : Option Binary64 := (powerOfTen? k).bind x.div?

/-- The greatest power of ten among the binary fractions has this exponent. -/
def greatestTen : Nat := 308

/-- A value of at most 64 bits times a power of ten, in steps that a binary fraction can hold. Each step
is rounded. A result that is too great is refused; after two divisions by the greatest power nothing
is left. -/
def scaleByTen (x : Binary64) (e : Int) : Option Binary64 :=
  if e < -(2 * greatestTen) then some Binary64.zero
  else if e < -greatestTen then
    (divByTen? x greatestTen).bind (divByTen? · (e.natAbs - greatestTen))
  else if e < 0 then divByTen? x e.natAbs
  else if greatestTen < e then if x.isZero then some x else none
  else (powerOfTen? e.natAbs).bind x.mul?

/-- A number with a fraction or an exponent, or one too long for 64 bits. Only the digits that fit are
used; whole digits left out count as zeros. -/
def readReal (negative : Bool) (whole fraction : List Char) (exponent : Int) : Option Number := do
  let (n, k) := takeDigits 0 whole
  let (n, j) := takeDigits n fraction
  let x ← (Binary64.ofRatio? n 1).bind fun x => scaleByTen x ((whole.length - k : Nat) - j + exponent)
  return .real (if negative then x.neg else x)

def readExponent (cs : List Char) : Option (Option Int × List Char) :=
  match cs with
  | c :: rest =>
    if c = 'e' || c = 'E' then
      let (negative, rest) := match rest with
        | '-' :: rest => (true, rest)
        | '+' :: rest => (false, rest)
        | _ => (false, rest)
      let ds := rest.takeWhile Text.isDigit
      (Text.readNumeral 10 ds).map fun (n : Nat) =>
        (some (if negative then -(n : Int) else n), rest.drop ds.length)
    else some (none, cs)
  | [] => some (none, [])

def readFraction (cs : List Char) : Option (Option (List Char) × List Char) :=
  match cs with
  | '.' :: rest =>
    let ds := rest.takeWhile Text.isDigit
    if ds.isEmpty then none else some (some ds, rest.drop ds.length)
  | _ => some (none, cs)

def wholeNumber (negative : Bool) (ds : List Char) : Option Number := do
  let n ← Text.readNumeral 10 ds
  if negative then
    if h : 0 < n ∧ n ≤ 0x8000000000000000 then return .negative n h else readReal true ds [] 0
  else
    if h : n < 0x10000000000000000 then return .natural n h else readReal false ds [] 0

/-- A number. Only a lone zero may start with a zero; a whole number that does not fit becomes a
binary fraction, and so does a zero with a minus sign. -/
def readNumber (cs : List Char) : Option (Number × List Char) := do
  let (negative, cs) := match cs with
    | '-' :: rest => (true, rest)
    | _ => (false, cs)
  let ds := cs.takeWhile Text.isDigit
  let cs := cs.drop ds.length
  guard (ds ≠ [] ∧ (ds.head? = some '0' → ds.length = 1))
  let (fraction, cs) ← readFraction cs
  let (exponent, cs) ← readExponent cs
  match fraction, exponent with
  | none, none => return (← wholeNumber negative ds, cs)
  | _, _ => return (← readReal negative ds (fraction.getD []) (exponent.getD 0), cs)

/-- Items with commas between them, up to a closing mark. Every item takes a character, so as many
rounds as there are characters will do. -/
def readItems {α : Type} (item : List Char → Option (α × List Char)) (close : Char) :
    Nat → List Char → Option (List α × List Char)
  | 0, _ => none
  | n + 1, cs => do
    let (a, cs) ← item cs
    match cs.dropWhile isSpace with
    | [] => none
    | c :: cs =>
      if c = ',' then
        let (as, cs) ← readItems item close n cs
        return (a :: as, cs)
      else if c = close then return ([a], cs)
      else none

/-- A row of items that may be empty, after its opening mark. -/
def readRow {α : Type} (item : List Char → Option (α × List Char)) (close : Char)
    (cs : List Char) : Option (List α × List Char) :=
  match cs.dropWhile isSpace with
  | [] => none
  | c :: rest => if c = close then some ([], rest) else readItems item close cs.length (c :: rest)

def readField (value : List Char → Option (Json × List Char)) (cs : List Char) :
    Option ((String × Json) × List Char) := do
  let (k, cs) ← readString (cs.dropWhile isSpace)
  match cs.dropWhile isSpace with
  | ':' :: cs => do
    let (v, cs) ← value cs
    return ((k, v), cs)
  | _ => none

/-- A value in which arrays and objects stand inside each other at most so many times. -/
def readValue (nesting : Nat) (cs : List Char) : Option (Json × List Char) :=
  match cs.dropWhile isSpace with
  | 'n' :: 'u' :: 'l' :: 'l' :: rest => some (null, rest)
  | 't' :: 'r' :: 'u' :: 'e' :: rest => some (bool true, rest)
  | 'f' :: 'a' :: 'l' :: 's' :: 'e' :: rest => some (bool false, rest)
  | '[' :: rest =>
    match nesting with
    | 0 => none
    | nesting + 1 => (readRow (readValue nesting) ']' rest).map fun (vs, rest) => (array vs, rest)
  | '\x7b' :: rest =>
    match nesting with
    | 0 => none
    | nesting + 1 =>
      (readRow (readField (readValue nesting)) '\x7d' rest).map fun (fs, rest) => (ofFields fs, rest)
  | '\x22' :: rest => (readString ('\x22' :: rest)).map fun (s, rest) => (string s, rest)
  | rest => (readNumber rest).map fun (n, rest) => (number n, rest)

def ofChars? (cs : List Char) : Option Json := do
  let (v, rest) ← readValue 127 cs
  if rest.all isSpace then return v else none

def ofText? (s : String) : Option Json := ofChars? s.toList

end Json
end FlightTrace
