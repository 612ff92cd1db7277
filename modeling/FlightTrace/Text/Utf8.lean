/-! Text as bytes, in UTF-8. -/
namespace FlightTrace
namespace Text

def utf8 (s : String) : List UInt8 := s.toUTF8.data.toList

def ofUtf8? (bs : List UInt8) : Option String := String.fromUTF8? ⟨bs.toArray⟩

@[simp] theorem length_utf8 (s : String) : (utf8 s).length = s.utf8ByteSize := rfl

@[simp] theorem ofUtf8?_utf8 (s : String) : ofUtf8? (utf8 s) = some s := by
  simp [ofUtf8?, utf8, String.fromUTF8?, String.toUTF8, s.isValidUTF8, String.fromUTF8]

end Text
end FlightTrace
