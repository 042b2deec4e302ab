/-
Versions of the file formats.
-/
import ShotTally.Codec.Binary

namespace ShotTally

open Text

structure Version where
  major : Nat
  minor : Nat
  patch : Nat
  deriving DecidableEq, Repr

namespace Version

/-- The version written. -/
def current : Version := ⟨1, 0, 0⟩

/-- Files of one major version can be read by one another. -/
def reads (reader written : Version) : Bool := reader.major == written.major

def text (v : Version) : String :=
  natText v.major ++ "." ++ natText v.minor ++ "." ++ natText v.patch

/-- Earlier versions come first. -/
def order (a b : Version) : Ordering :=
  ((compare a.major b.major).then (compare a.minor b.minor)).then (compare a.patch b.patch)

instance : Binary Version where
  encode v := Binary.word 4 v.major ++ Binary.word 4 v.minor ++ Binary.word 4 v.patch
  decode := do
    let major ← Binary.readWord 4
    let minor ← Binary.readWord 4
    let patch ← Binary.readWord 4
    return ⟨major, minor, patch⟩

end Version
end ShotTally
