import FlightTrace.Text.CodePoint
import FlightTrace.Text.Numeral
import FlightTrace.Toml.Reader

/-! Text in TOML. It stands between double quotes, where escapes are understood, or between single
quotes, where every character means itself; with three quotes on each side it may run over several
lines. Text is written in the plainest of these forms that can hold it. -/
namespace FlightTrace
namespace Toml
namespace Quoted

/-- The character with a number of so many hexadecimal digits. -/
def readCodePoint (width : Nat) (cs : List Char) : Option (Char × List Char) :=
  if cs.length < width then none
  else ((Text.readNumeral 16 (cs.take width)).bind Text.ofCodePoint?).map (·, cs.drop width)

def readEscape : List Char → Option (Char × List Char)
  | 'u' :: cs => readCodePoint 4 cs
  | 'U' :: cs => readCodePoint 8 cs
  | '\x22' :: cs => some ('\x22', cs)
  | '\x5c' :: cs => some ('\x5c', cs)
  | 'b' :: cs => some ('\x08', cs)
  | 'f' :: cs => some ('\x0c', cs)
  | 'n' :: cs => some ('\n', cs)
  | 'r' :: cs => some ('\r', cs)
  | 't' :: cs => some ('\t', cs)
  | _ => none

theorem length_of_readEscape {cs rest : List Char} {c : Char} (h : readEscape cs = some (c, rest)) :
    rest.length < cs.length := by
  have key : ∀ width ds, readCodePoint width ds = some (c, rest) → rest.length ≤ ds.length := by
    intro width ds h
    unfold readCodePoint at h
    split at h
    · simp at h
    · obtain ⟨x, -, hx⟩ := Option.map_eq_some_iff.mp h
      obtain ⟨-, rfl⟩ := Prod.mk.inj hx
      simp
  unfold readEscape at h
  split at h
  · exact Nat.lt_succ_of_le (key _ _ h)
  · exact Nat.lt_succ_of_le (key _ _ h)
  all_goals simp at h
  all_goals
    obtain ⟨-, rfl⟩ := h
    simp

def skipBlanks : List Char → List Char
  | '\r' :: '\n' :: cs => skipBlanks cs
  | c :: cs => if isSpace c || c = '\n' then skipBlanks cs else c :: cs
  | [] => []

theorem length_skipBlanks_le (cs : List Char) : (skipBlanks cs).length ≤ cs.length := by
  fun_induction skipBlanks cs with
  | case1 cs ih => simp only [List.length_cons]; omega
  | case2 c cs _ _ ih => simp only [List.length_cons]; omega
  | case3 c cs _ _ => exact Nat.le_refl _
  | case4 => exact Nat.le_refl _

/-- What follows the blanks at the end of a line and at the start of the lines after it, if a line ends
here. -/
def joinLines? (cs : List Char) : Option (List Char) :=
  match cs.dropWhile isSpace with
  | '\n' :: cs => some (skipBlanks cs)
  | '\r' :: '\n' :: cs => some (skipBlanks cs)
  | _ => none

theorem length_of_joinLines? {cs rest : List Char} (h : joinLines? cs = some rest) :
    rest.length < cs.length := by
  have key : (cs.dropWhile isSpace).length ≤ cs.length := (List.dropWhile_sublist _).length_le
  unfold joinLines? at h
  split at h
  · rename_i ds e
    obtain rfl := Option.some.inj h
    have := length_skipBlanks_le ds
    simp only [e, List.length_cons] at key
    omega
  · rename_i ds e
    obtain rfl := Option.some.inj h
    have := length_skipBlanks_le ds
    simp only [e, List.length_cons] at key
    omega
  · simp at h

def readBasicChars : List Char → Option (List Char × List Char)
  | [] => none
  | c :: rest =>
    if c = '\x22' then some ([], rest)
    else if c = '\x5c' then
      match h : readEscape rest with
      | some (x, rest') =>
        have := length_of_readEscape h
        (readBasicChars rest').map fun (xs, end') => (x :: xs, end')
      | none => none
    else if isPlain c then (readBasicChars rest).map fun (xs, end') => (c :: xs, end')
    else none
termination_by cs => cs.length
decreasing_by
  all_goals
    simp only [List.length_cons]
    omega

/-- Up to two quotes that stand before the three at the end, found behind these. -/
def readClosing (q : Char) (cs : List Char) : List Char × List Char :=
  let more := (cs.take 2).takeWhile (· = q)
  (more, cs.drop more.length)

/-- The characters up to three quotes. Between double quotes a backslash at the end of a line joins the
next words to it. -/
def readLongChars (q : Char) : List Char → Option (List Char × List Char)
  | [] => none
  | c :: rest =>
    if c = q ∧ rest.take 2 = [q, q] then some (readClosing q (rest.drop 2))
    else if c = '\x5c' ∧ q = '\x22' then
      match hj : joinLines? rest with
      | some rest' =>
        have := length_of_joinLines? hj
        readLongChars q rest'
      | none =>
        match h : readEscape rest with
        | some (x, rest') =>
          have := length_of_readEscape h
          (readLongChars q rest').map fun (xs, end') => (x :: xs, end')
        | none => none
    else if c = '\r' ∧ rest.head? = some '\n' then readLongChars q rest
    else if isPlain c ∨ c = '\n' then (readLongChars q rest).map fun (xs, end') => (c :: xs, end')
    else none
termination_by cs => cs.length
decreasing_by
  all_goals
    simp only [List.length_cons]
    omega

def basic : Reader String := do
  Reader.mark '\x22'
  return String.ofList (← readBasicChars)

def literal : Reader String := do
  Reader.mark '\x27'
  let cs ← Reader.many fun c => isPlain c && c ≠ '\x27'
  Reader.mark '\x27'
  return String.ofList cs

/-- Text of several lines. A line end right after the opening quotes does not count. -/
def long (q : Char) : Reader String := do
  Reader.word [q, q, q]
  let _ ← newline.maybe
  return String.ofList (← readLongChars q)

def short : Reader String := basic <|> literal

def text : Reader String := long '\x22' <|> long '\x27' <|> short

def isControl (c : Char) : Bool := (c.toNat < 32 && c ≠ '\t' && c ≠ '\n') || c.toNat = 0x7f

/-- The length of the longest run of a character, given the run so far. -/
def longestRun (q : Char) : Nat → List Char → Nat
  | n, [] => n
  | n, c :: cs => if c = q then longestRun q (n + 1) cs else max n (longestRun q 0 cs)

def escape (c : Char) : List Char :=
  if c = '\x5c' then ['\x5c', '\x5c']
  else if c = '\x08' then ['\x5c', 'b']
  else if c = '\t' then ['\x5c', 't']
  else if c = '\n' then ['\x5c', 'n']
  else if c = '\x0c' then ['\x5c', 'f']
  else if c = '\r' then ['\x5c', 'r']
  else if isControl c then ['\x5c', 'u'] ++ (Text.padded 16 4 c.toNat).toList.map Char.toUpper
  else [c]

/-- What stands for some characters between double quotes, after so many of these. Three of them on
each side leave line ends as they are, and two double quotes in a row. -/
def escapeAll (long : Bool) : Nat → List Char → List Char
  | _, [] => []
  | n, c :: cs =>
    if c = '\x22' then
      if long ∧ n < 2 then c :: escapeAll long (n + 1) cs
      else '\x5c' :: c :: escapeAll long 0 cs
    else if long ∧ c = '\n' then c :: escapeAll long 0 cs
    else escape c ++ escapeAll long 0 cs

/-- Characters between quotes. Text of several lines starts on a line of its own. -/
def between (quotes : List Char) (lines : Bool) (cs : List Char) : List Char :=
  quotes ++ (if lines then ['\n'] else []) ++ cs ++ quotes

/-- Characters in the first form of four that needs no escapes but those of tabs, or else with escapes. -/
def write (cs : List Char) : List Char :=
  let lines := cs.contains '\n'
  let controls := cs.any isControl
  let backslash := cs.contains '\x5c'
  let doubles := longestRun '\x22' 0 cs
  let singles := longestRun '\x27' 0 cs
  let three := fun q => List.replicate 3 q
  if !controls && !backslash && doubles = 0 && !lines then
    between ['\x22'] false (escapeAll false 0 cs)
  else if !controls && singles = 0 && !lines then between ['\x27'] false cs
  else if !controls && !backslash && doubles ≤ 2 then
    between (three '\x22') lines (escapeAll true 0 cs)
  else if !controls && singles ≤ 2 then between (three '\x27') lines cs
  else if lines then between (three '\x22') true (escapeAll true 0 cs)
  else between ['\x22'] false (escapeAll false 0 cs)

end Quoted
end Toml
end FlightTrace
