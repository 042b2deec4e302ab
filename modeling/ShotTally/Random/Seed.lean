/-
Seeds: a key of eight words from one 64-bit seed, and independent seeds for numbered substreams.
-/

namespace ShotTally.Seed

/-- The states of the generator that spreads a seed: a linear congruence modulo `2 ^ 64`. -/
def next (state : UInt64) : UInt64 := state * 6364136223846793005 + 11634580027462260723

/-- A word of output from a state: its high bits folded together and rotated by the highest. -/
def permuted (state : UInt64) : UInt32 :=
  let folded := (((state >>> 18) ^^^ state) >>> 27).toUInt32
  let turn := (state >>> 59).toUInt32
  (folded >>> turn) ||| (folded <<< ((32 - turn) &&& 31))

/-- So many words spread from a seed. -/
def spread : Nat → UInt64 → List UInt32
  | 0, _ => []
  | n + 1, state => permuted (next state) :: spread n (next state)

/-- The key of a seed. -/
def key (seed : UInt64) : List UInt32 := spread 8 seed

/-! ## Substreams -/

def rotateLeft (x : UInt64) (n : UInt64) : UInt64 := (x <<< n) ||| (x >>> (64 - n))

/-- The four words of the hash. -/
structure Sip where
  v0 : UInt64
  v1 : UInt64
  v2 : UInt64
  v3 : UInt64
  deriving DecidableEq

namespace Sip

/-- The start for a key of zeros. -/
def start : Sip :=
  ⟨0x736f6d6570736575, 0x646f72616e646f6d, 0x6c7967656e657261, 0x7465646279746573⟩

def round (s : Sip) : Sip :=
  let v0 := s.v0 + s.v1
  let v1 := rotateLeft s.v1 13 ^^^ v0
  let v0 := rotateLeft v0 32
  let v2 := s.v2 + s.v3
  let v3 := rotateLeft s.v3 16 ^^^ v2
  let v0 := v0 + v3
  let v3 := rotateLeft v3 21 ^^^ v0
  let v2 := v2 + v1
  let v1 := rotateLeft v1 17 ^^^ v2
  let v2 := rotateLeft v2 32
  ⟨v0, v1, v2, v3⟩

/-- Takes in one word with one round. -/
def absorb (s : Sip) (m : UInt64) : Sip :=
  let s := round { s with v3 := s.v3 ^^^ m }
  { s with v0 := s.v0 ^^^ m }

/-- The hash after three closing rounds. -/
def finish (s : Sip) : UInt64 :=
  let s := round (round (round { s with v2 := s.v2 ^^^ 0xff }))
  s.v0 ^^^ s.v1 ^^^ s.v2 ^^^ s.v3

end Sip

/-- The hash of whole words; the last word taken in holds the number of bytes modulo 256 in its
highest byte. -/
def hash (words : List UInt64) : UInt64 :=
  let length := UInt64.ofNat (8 * words.length % 256)
  ((words.foldl Sip.absorb Sip.start).absorb (length <<< 56)).finish

/-- The seed of a numbered substream of a seed. -/
def substream (seed number : UInt64) : UInt64 := hash [seed, number]

end ShotTally.Seed
