import FlightTrace.Text.Utf8

/-! Values as bytes: numbers of fixed width with the lowest byte first, text after its length, and a
mark before a value that may be missing. A reader takes bytes from the front and leaves the rest;
every reader gives back what the writer of its kind wrote, whatever follows. -/
namespace FlightTrace
namespace Binary

abbrev Reader := StateT (List UInt8) Option

def natural : Nat → Nat → List UInt8
  | 0, _ => []
  | width + 1, n => UInt8.ofNat n :: natural width (n / 256)

/-- The number that bytes stand for, the lowest first. -/
def value : List UInt8 → Nat
  | [] => 0
  | b :: bs => b.toNat + 256 * value bs

def readBytes (n : Nat) : Reader (List UInt8) := fun bs =>
  if bs.length < n then none else some (bs.take n, bs.drop n)

def readNatural (width : Nat) : Reader Nat := do return value (← readBytes width)

def text (s : String) : List UInt8 := natural 8 s.utf8ByteSize ++ Text.utf8 s

def textSize (s : String) : Nat := 8 + s.utf8ByteSize

def readText : Reader String := do
  let bs ← readBytes (← readNatural 8)
  (Text.ofUtf8? bs : Option String)

def option {α : Type} (write : α → List UInt8) : Option α → List UInt8
  | none => [0]
  | some a => 1 :: write a

def optionSize {α : Type} (size : α → Nat) : Option α → Nat
  | none => 1
  | some a => 1 + size a

def readOption {α : Type} (read : Reader α) : Reader (Option α) := do
  match ← readNatural 1 with
  | 0 => return none
  | 1 => return some (← read)
  | _ => failure

@[simp] theorem length_natural (width n : Nat) : (natural width n).length = width := by
  induction width generalizing n with
  | zero => rfl
  | succ w ih => simp [natural, ih]

theorem value_natural (width n : Nat) (h : n < Nat.pow 256 width) : value (natural width n) = n := by
  induction width generalizing n with
  | zero => simp_all [natural, value]
  | succ w ih =>
    have : n / 256 < Nat.pow 256 w := (Nat.div_lt_iff_lt_mul (by decide)).2 h
    simp only [natural, value, ih _ this, UInt8.toNat_ofNat']
    omega

@[simp] theorem readBytes_append (bs rest : List UInt8) :
    readBytes bs.length (bs ++ rest) = some (bs, rest) := by
  simp [readBytes]

theorem readNatural_natural_append (width n : Nat) (h : n < Nat.pow 256 width) (rest : List UInt8) :
    readNatural width (natural width n ++ rest) = some (n, rest) := by
  have := readBytes_append (natural width n) rest
  rw [length_natural] at this
  have e : readNatural width (natural width n ++ rest) =
      (readBytes width (natural width n ++ rest)).bind fun p => some (value p.1, p.2) := rfl
  rw [e, this]
  exact congrArg (fun v => some (v, rest)) (value_natural width n h)

@[simp] theorem length_text (s : String) : (text s).length = textSize s := by
  simp [text, textSize]

@[simp] theorem length_option {α : Type} {write : α → List UInt8} {size : α → Nat}
    (h : ∀ a, (write a).length = size a) (o : Option α) :
    (option write o).length = optionSize size o := by
  cases o <;> simp [option, optionSize, h, Nat.add_comm]

end Binary
end FlightTrace
