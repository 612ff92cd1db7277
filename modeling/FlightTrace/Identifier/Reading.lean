import FlightTrace.Identifier.Callsign
import FlightTrace.Identifier.SourceTag
import FlightTrace.Identifier.Squawk
import FlightTrace.Identifier.WakeCategory
import FlightTrace.RecordFault

/-! Identifiers from numbers and text, with the reason where one is refused. Text is trimmed before
it is read; a message quotes an address as it was given and a squawk as it was trimmed. -/
namespace FlightTrace

def Address.ofNat (n : Nat) : Except RecordFault Address :=
  match ofNat? n with
  | some a => .ok a
  | none => .error (.wideAddress n)

/-- The hexadecimal text must fit a word of 32 bits before its size is judged. -/
def Address.ofText (s : String) : Except RecordFault Address :=
  match Text.readSigned 16 (Text.trimChars s.toList) with
  | some n => if n < 0x100000000 then ofNat n else .error (.unreadableAddress s)
  | none => .error (.unreadableAddress s)

/-- Four bytes of octal text, a plus sign included. -/
def Squawk.ofText (s : String) : Except RecordFault Squawk :=
  let t := Text.trim s
  if t.utf8ByteSize = 4 then
    match (Text.readSigned 8 t.toList).bind ofNat? with
    | some c => .ok c
    | none => .error (.unreadableSquawk t)
  else .error (.unreadableSquawk t)

def Callsign.ofText (s : String) : Except RecordFault Callsign :=
  match ofText? s with
  | some c => .ok c
  | none => .error .blankCallsign

def SourceTag.ofChar (c : Char) : Except RecordFault SourceTag :=
  match ofChar? c with
  | some t => .ok t
  | none => .error (.invisibleSourceTag c)

def WakeCategory.ofText (s : String) : Except RecordFault WakeCategory :=
  match s.toList with
  | [c] =>
    match ofChar? c with
    | some w => .ok w
    | none => .error (.unknownWakeCategory s)
  | _ => .error (.unknownWakeCategory s)

@[simp] theorem Address.ofNat_val (a : Address) : Address.ofNat a.val = .ok a := by
  simp [ofNat]

@[simp] theorem Callsign.ofText_text (c : Callsign) : Callsign.ofText c.text = .ok c := by
  simp [ofText]

@[simp] theorem SourceTag.ofChar_char (t : SourceTag) : SourceTag.ofChar t.char = .ok t := by
  simp [ofChar]

end FlightTrace
