import FlightTrace.Crc32
import FlightTrace.Error
import FlightTrace.Log.Entry

/-! Frames. A frame is the length of its body in four bytes, then the body: a tag for the kind of the
entry, the entry, and a checksum of both. Frames can be told apart without a mark between them. -/
namespace FlightTrace
namespace Log
namespace Frame

def maxBody : Nat := 67108864

def tag (e : Entry) : UInt8 := UInt8.ofNat (e.index + 1)

def bodySize (e : Entry) : Nat := 5 + e.size

/-- The length of the frame of an entry, unless its body is too long. -/
def size (e : Entry) : Except SerializationFault Nat :=
  if maxBody < bodySize e then .error (.oversized (bodySize e)) else .ok (4 + bodySize e)

def bytes (e : Entry) : List UInt8 :=
  let content := tag e :: e.bytes
  Binary.natural 4 (bodySize e) ++ content ++ Binary.natural 4 (Crc32.checksum content)

def encode (e : Entry) : Except SerializationFault (List UInt8) := (size e).map fun _ => bytes e

/-- The length of a whole frame as its first four bytes state it. -/
def declaredSize? : List UInt8 → Option Nat
  | a :: b :: c :: d :: _ => some (4 + Binary.value [a, b, c, d])
  | _ => none

inductive Decoded where
  /-- An entry and the length of its frame. -/
  | whole (entry : Entry) (length : Nat)
  | incomplete
deriving DecidableEq

def decodeBody (body : List UInt8) : Except FrameFault Entry :=
  let content := body.take (body.length - 4)
  let stored := Binary.value (body.drop (body.length - 4))
  let computed := Crc32.checksum content
  if computed ≠ stored then .error (.checksum stored computed)
  else
    match Entry.ofBytes? content.tail with
    | none => .error .undecodable
    | some e => if content.head? = some (tag e) then .ok e else .error (.wrongTag (content.headD 0).toNat)

def decode (bs : List UInt8) : Except FrameFault Decoded :=
  match declaredSize? bs with
  | none => .ok .incomplete
  | some n =>
    if n < 9 then .error (.short (n - 4))
    else if maxBody < n - 4 then .error (.long (n - 4))
    else if bs.length < n then .ok .incomplete
    else (decodeBody ((bs.take n).drop 4)).map (.whole · n)

@[simp] theorem length_bytes (e : Entry) : (bytes e).length = 4 + bodySize e := by
  simp [bytes, bodySize]
  omega

theorem length_of_decode {bs : List UInt8} {e : Entry} {n : Nat}
    (h : decode bs = .ok (.whole e n)) : 9 ≤ n ∧ n ≤ bs.length := by
  unfold decode at h
  split at h
  · simp at h
  · rename_i m hm
    by_cases h₁ : m < 9
    · simp [h₁] at h
    · by_cases h₂ : maxBody < m - 4
      · simp [h₁, h₂] at h
      · by_cases h₃ : bs.length < m
        · simp [h₁, h₂, h₃] at h
        · simp only [h₁, h₂, h₃, if_false] at h
          cases hb : decodeBody ((bs.take m).drop 4) with
          | error f => simp [hb, Except.map] at h
          | ok x =>
            simp only [hb, Except.map, Except.ok.injEq, Decoded.whole.injEq] at h
            omega

end Frame
end Log
end FlightTrace
