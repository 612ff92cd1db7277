/-! Blank characters and trimming. A character is blank when it has the Unicode property
White_Space; trimming removes blanks at both ends and is idempotent. -/
namespace FlightTrace
namespace Text

def isBlank (c : Char) : Bool :=
  let n := c.toNat
  (9 ≤ n && n ≤ 13) || n == 0x20 || n == 0x85 || n == 0xa0 || n == 0x1680 ||
    (0x2000 ≤ n && n ≤ 0x200a) || n == 0x2028 || n == 0x2029 || n == 0x202f || n == 0x205f ||
    n == 0x3000

def trimChars (cs : List Char) : List Char :=
  ((cs.dropWhile isBlank).reverse.dropWhile isBlank).reverse

def trim (s : String) : String := String.ofList (trimChars s.toList)

theorem dropWhile_reverse_dropWhile {p : Char → Bool} (cs : List Char) (h : cs.head?.all (!p ·)) :
    ((cs.reverse.dropWhile p).reverse).head?.all (!p ·) := by
  cases cs with
  | nil => rfl
  | cons c cs =>
    have hc : p c = false := by simpa using h
    rw [List.reverse_cons, List.dropWhile_append]
    by_cases e : (List.dropWhile p cs.reverse).isEmpty
    · simp [e, hc]
    · simp [e, hc]

theorem head?_dropWhile_all {p : Char → Bool} (cs : List Char) :
    (cs.dropWhile p).head?.all (!p ·) := by
  have := List.head?_dropWhile_not p cs
  cases h : (cs.dropWhile p).head? with
  | none => rfl
  | some c => simp [h] at this; simp [this]

theorem dropWhile_eq_self {p : Char → Bool} (cs : List Char) (h : cs.head?.all (!p ·)) :
    cs.dropWhile p = cs := by
  cases cs with
  | nil => rfl
  | cons c cs => simp_all

@[simp] theorem trimChars_trimChars (cs : List Char) : trimChars (trimChars cs) = trimChars cs := by
  have h₁ := dropWhile_reverse_dropWhile (cs.dropWhile isBlank) (head?_dropWhile_all cs)
  have h₂ := head?_dropWhile_all (p := isBlank) ((cs.dropWhile isBlank).reverse)
  unfold trimChars
  rw [dropWhile_eq_self _ h₁, List.reverse_reverse, dropWhile_eq_self _ h₂]

@[simp] theorem trim_trim (s : String) : trim (trim s) = trim s := by
  simp [trim]

end Text
end FlightTrace
