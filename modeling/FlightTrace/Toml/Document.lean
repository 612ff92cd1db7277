import FlightTrace.Toml.Quoted
import FlightTrace.Toml.Table

/-! Documents of TOML, line by line. Arrays and tables in braces may stand inside each other 79 deep, and
a key may have as many names. -/
namespace FlightTrace
namespace Toml

def isBare (c : Char) : Bool := c.isAlphanum || c = '_' || c = '-'

def bareName : Reader String := do
  let cs ← Reader.many isBare
  guard (cs ≠ [])
  return String.ofList cs

def name : Reader String := do
  spaces
  let s ← Quoted.short <|> bareName
  spaces
  return s

def key : Reader Key := do
  let names ← Reader.separated '.' name
  guard (names.length < 80)
  (Key.ofNames? names : Option Key)

def truth : Reader Unit := Reader.word ['t', 'r', 'u', 'e'] <|> Reader.word ['f', 'a', 'l', 's', 'e']

def simpleValue : Reader Value :=
  (.string <$> Quoted.text) <|> ((fun _ => .other) <$> (moment <|> real <|> truth)) <|>
    (.integer <$> integer)

/-- An array, which may run over several lines and have a comma after its last item. -/
def array (value : Reader Value) : Reader Value := do
  Reader.mark '['
  let _ ← (do
    let _ ← Reader.separated ',' (do layout; let v ← value; layout; return v)
    (Reader.mark ',').maybe).maybe
  layout
  Reader.mark ']'
  return .other

def assignment (value : Reader Value) : Reader (Key × Value) := do
  let k ← key
  Reader.mark '='
  spaces
  return (k, ← value)

/-- A table in braces, on one line. -/
def inlineTable (value : Reader Value) : Reader Value := do
  Reader.mark '\x7b'
  let as ← (Reader.separated ',' (do let a ← assignment value; spaces; return a)).maybe
  spaces
  Reader.mark '\x7d'
  guard (assignAll [] (as.getD [])).isSome
  return .other

/-- A value in which arrays and tables stand inside each other at most so many times. -/
def value : Nat → Reader Value
  | 0 => simpleValue
  | n + 1 => simpleValue <|> array (value n) <|> inlineTable (value n)

def statement : Reader Statement :=
  (do Reader.word ['[', '[']; let k ← key; Reader.word [']', ']']; return .element k) <|>
    (do Reader.mark '['; let k ← key; Reader.mark ']'; return .header k) <|>
    (fun a => .assignment a.1 a.2) <$> assignment (value 79)

/-- A line. It may be blank. -/
def line : Reader (Option Statement) := do
  spaces
  let s ← statement.maybe
  lineEnd
  return s

/-- All lines. Each takes a character, so as many rounds as there are characters will do. -/
def lines : Nat → List Char → Option (List Statement)
  | _, [] => some []
  | 0, _ :: _ => none
  | n + 1, c :: cs => do
    let (s, rest) ← line (c :: cs)
    return s.toList ++ (← lines n rest)

/-- The table that a text describes. A mark of byte order before it does not count. -/
def ofText? (s : String) : Option Fields := do
  let cs := match s.toList with
    | '\ufeff' :: cs => cs
    | cs => cs
  ofStatements? (← lines cs.length cs)

end Toml
end FlightTrace
