/-! Readers of TOML take what they need from the front of some characters and leave the rest. -/
namespace FlightTrace
namespace Toml

abbrev Reader := StateT (List Char) Option

namespace Reader

variable {α : Type}

def one (p : Char → Bool) : Reader Char := fun cs =>
  match cs with
  | c :: cs => if p c then some (c, cs) else none
  | [] => none

def mark (c : Char) : Reader Unit := do
  let _ ← one (· = c)

def word (cs : List Char) : Reader Unit := cs.forM mark

def many (p : Char → Bool) : Reader (List Char) := fun cs => some (cs.takeWhile p, cs.dropWhile p)

def exactly (p : Char → Bool) : Nat → Reader (List Char)
  | 0 => return []
  | n + 1 => return (← one p) :: (← exactly p n)

def maybe (r : Reader α) : Reader (Option α) := (some <$> r) <|> return none

/-- At least one item, with a mark between any two. A mark after the last item is left. -/
def separatedUpTo (sep : Char) (item : Reader α) : Nat → Reader (List α)
  | 0 => failure
  | n + 1 => do
    let a ← item
    (do mark sep; return a :: (← separatedUpTo sep item n)) <|> return [a]

/-- Every item but the first takes a mark, so there are no more items than one for each character
and one more. -/
def separated (sep : Char) (item : Reader α) : Reader (List α) := fun cs =>
  separatedUpTo sep item (cs.length + 1) cs

def atEnd : Reader Unit := fun cs => if cs.isEmpty then some ((), cs) else none

end Reader

def isSpace (c : Char) : Bool := c = ' ' || c = '\t'

/-- Characters that stand for themselves in text and comments: tabs and all that are no controls. -/
def isPlain (c : Char) : Bool := c = '\t' || (0x20 ≤ c.toNat && c.toNat ≠ 0x7f)

def spaces : Reader Unit := do
  let _ ← Reader.many isSpace

def newline : Reader Unit := Reader.mark '\n' <|> Reader.word ['\r', '\n']

def comment : Reader Unit := do
  Reader.mark '#'
  let _ ← Reader.many isPlain

def lineEnd : Reader Unit := do
  spaces
  let _ ← comment.maybe
  newline <|> Reader.atEnd

def skipLayout (inComment : Bool) : List Char → List Char
  | [] => []
  | '\n' :: cs => skipLayout false cs
  | '\r' :: '\n' :: cs => skipLayout false cs
  | c :: cs =>
    if inComment then if isPlain c then skipLayout true cs else c :: cs
    else if isSpace c then skipLayout false cs
    else if c = '#' then skipLayout true cs
    else c :: cs

def layout : Reader Unit := fun cs => some ((), skipLayout false cs)

end Toml
end FlightTrace
