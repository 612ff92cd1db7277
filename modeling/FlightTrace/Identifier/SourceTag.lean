/-! Source tags: one visible ASCII character that names the feed or receiver of a trace. -/
namespace FlightTrace

structure SourceTag where
  char : Char
  visible : 0x21 ≤ char.toNat ∧ char.toNat ≤ 0x7e
deriving DecidableEq

namespace SourceTag

def ofChar? (c : Char) : Option SourceTag :=
  if h : 0x21 ≤ c.toNat ∧ c.toNat ≤ 0x7e then some ⟨c, h⟩ else none

@[simp] theorem ofChar?_char (t : SourceTag) : ofChar? t.char = some t := by
  simp [ofChar?, t.visible]

end SourceTag
end FlightTrace
