/-! Wake turbulence categories and their letters. -/
namespace FlightTrace

inductive WakeCategory where
  | light
  | medium
  | heavy
  | super
deriving DecidableEq

namespace WakeCategory

def letter : WakeCategory → Char
  | light => 'L'
  | medium => 'M'
  | heavy => 'H'
  | super => 'J'

def name : WakeCategory → String
  | light => "Light"
  | medium => "Medium"
  | heavy => "Heavy"
  | super => "Super"

/-- The category of a letter in either case. -/
def ofChar? (c : Char) : Option WakeCategory :=
  match c with
  | 'L' | 'l' => some light
  | 'M' | 'm' => some medium
  | 'H' | 'h' => some heavy
  | 'J' | 'j' => some super
  | _ => none

@[simp] theorem ofChar?_letter (w : WakeCategory) : ofChar? w.letter = some w := by
  cases w <;> rfl

def rank : WakeCategory → Nat
  | light => 0
  | medium => 1
  | heavy => 2
  | super => 3

def ofRank? : Nat → Option WakeCategory
  | 0 => some light
  | 1 => some medium
  | 2 => some heavy
  | 3 => some super
  | _ => none

@[simp] theorem ofRank?_rank (w : WakeCategory) : ofRank? w.rank = some w := by
  cases w <;> rfl

end WakeCategory
end FlightTrace
