/-
The binary form of files and artifacts: numbers of fixed width with the lowest byte first, texts,
lists and collections behind their length. A reader takes what it needs from the front and leaves
the rest.
-/
import ShotTally.Keyed
import ShotTally.Tensor.Basic
import ShotTally.Text.Bytes

namespace ShotTally

/-- Takes a value from the front of some bytes. -/
abbrev Decoder (α : Type) := StateT (List UInt8) Option α

class Binary (α : Type) where
  encode : α → List UInt8
  decode : Decoder α

namespace Binary

variable {α : Type}

/-! ## Numbers -/

/-- So many bytes of a number, the lowest first. -/
def word : (bytes : Nat) → Nat → List UInt8
  | 0, _ => []
  | k + 1, n => UInt8.ofNat n :: word k (n / 256)

def readByte : Decoder UInt8 := fun
  | [] => none
  | b :: rest => some (b, rest)

def readWord : (bytes : Nat) → Decoder Nat
  | 0 => return 0
  | k + 1 => do
    let low ← readByte
    let high ← readWord k
    return low.toNat + 256 * high

/-- Sizes and lengths take eight bytes. -/
def size (n : Nat) : List UInt8 := word 8 n

def readSize : Decoder Nat := readWord 8

/-- A number is stored as its bit pattern. -/
instance : Binary Double where
  encode d := word 8 d.bits.toNat
  decode := do return ⟨UInt64.ofNat (← readWord 8)⟩

/-! ## Texts and lists -/

def readBytes (count : Nat) : Decoder (List UInt8) := fun bytes =>
  let part := bytes.take count
  if part.length = count then some (part, bytes.drop count) else none

/-- A text is stored as its bytes behind their number, and has to be well-formed. -/
instance : Binary String where
  encode s := size s.utf8ByteSize ++ Text.bytes s
  decode := do
    let bytes ← readBytes (← readSize)
    StateT.lift (Text.ofBytes? bytes)

def readMany (item : Decoder α) : Nat → Decoder (List α)
  | 0 => return []
  | n + 1 => do
    let first ← item
    return first :: (← readMany item n)

/-- A list with each item in the given form. -/
def listOf (item : α → List UInt8) (l : List α) : List UInt8 := size l.length ++ l.flatMap item

def readList (item : Decoder α) : Decoder (List α) := do readMany item (← readSize)

instance [Binary α] : Binary (List α) where
  encode := listOf encode
  decode := readList decode

/-- The sizes of a shape. -/
def sizes (shape : List Nat) : List UInt8 := listOf size shape

def readSizes : Decoder (List Nat) := readList readSize

/-- A collection is stored in the order of its names; of two entries with one name the later one
is read. -/
instance [Binary α] : Binary (Keyed α) where
  encode m := listOf (fun e => encode e.1 ++ encode e.2) m.entries
  decode := do
    let entries ← readList (do
      let k ← (decode : Decoder String)
      let v ← (decode : Decoder α)
      return (k, v))
    return Keyed.ofList entries

/-- An array is stored as its shape and its elements; reading does not compare the two. -/
instance [Binary α] : Binary (Tensor α) where
  encode t := sizes t.shape ++ encode t.data
  decode := do
    let shape ← readSizes
    let data ← decode
    return ⟨shape, data⟩

/-- Reads a value from the front of some bytes; what follows it does not matter. -/
def read? [Binary α] (bytes : List UInt8) : Option α := (decode.run bytes).map (·.1)

end Binary
end ShotTally
