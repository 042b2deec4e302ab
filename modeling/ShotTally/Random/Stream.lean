/-
Streams of random numbers: uniform on the unit interval, and normally distributed.
-/
import ShotTally.Number.Double
import ShotTally.Random.ChaCha
import ShotTally.Random.Seed

namespace ShotTally

/-- A keystream, the words of the current block still to be used, and the next block. -/
structure RandomStream where
  key : List UInt32
  pending : List UInt32
  counter : Nat

namespace RandomStream

def ofSeed (seed : UInt64) : RandomStream := ⟨Seed.key seed, [], 0⟩

/-- The stream of a numbered substream of a seed. -/
def substream (seed number : UInt64) : RandomStream := ofSeed (Seed.substream seed number)

/-- Two words of the keystream as one, the lower first. -/
def draw : StateM RandomStream UInt64 := fun s =>
  match s.pending with
  | low :: high :: rest =>
    (low.toUInt64 ||| (high.toUInt64 <<< 32), { s with pending := rest })
  | _ =>
    match ChaCha.block s.key s.counter with
    | low :: high :: rest =>
      (low.toUInt64 ||| (high.toUInt64 <<< 32), ⟨s.key, rest, s.counter + 1⟩)
    | _ => (0, s)

/-- A multiple of `2 ^ -53` from zero up to one. -/
def uniform : StateM RandomStream Double := do
  let bits := (← draw) >>> 11
  return Double.ofNat bits.toNat * ⟨0x3ca0000000000000⟩

/-- The least positive normal number. -/
def leastNormal : Double := ⟨0x0010000000000000⟩

def two : Double := ⟨0x4000000000000000⟩

/-- The ratio of a full turn to the radius of its circle. -/
def fullTurn : Double := ⟨0x401921fb54442d18⟩

def logarithm (x : Double) : Double := .ofFloat x.toFloat.log
def squareRoot (x : Double) : Double := .ofFloat x.toFloat.sqrt
def cosine (x : Double) : Double := .ofFloat x.toFloat.cos

/-- Normally distributed around zero with unit width, from two uniform numbers: the radius from
the first, the angle from the second. -/
def gaussian : StateM RandomStream Double := do
  let u1 ← uniform
  let u1 := if u1.lt leastNormal then leastNormal else u1
  let u2 ← uniform
  return squareRoot (two.neg * logarithm u1) * cosine (fullTurn * u2)

def normal (mean sigma : Double) : StateM RandomStream Double := do
  return mean + sigma * (← gaussian)

end RandomStream
end ShotTally
