/-
Text as bytes, in the encoding that all files use.
-/

namespace ShotTally.Text

def bytes (s : String) : List UInt8 := s.toByteArray.toList

/-- The text of bytes, if they encode one. -/
def ofBytes? (bytes : List UInt8) : Option String := String.fromUTF8? ⟨bytes.toArray⟩

end ShotTally.Text
