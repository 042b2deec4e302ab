/-
The ChaCha keystream with twelve rounds: blocks of sixteen words from a key of eight words and a
block counter.
-/

namespace ShotTally.ChaCha

def rotateLeft (x : UInt32) (n : UInt32) : UInt32 := (x <<< n) ||| (x >>> (32 - n))

/-- Sixteen words in four rows of four. -/
structure Grid where
  a : List UInt32
  b : List UInt32
  c : List UInt32
  d : List UInt32
  deriving DecidableEq

/-- The quarter round on four words. -/
def quarter (a b c d : UInt32) : UInt32 × UInt32 × UInt32 × UInt32 :=
  let a := a + b
  let d := rotateLeft (d ^^^ a) 16
  let c := c + d
  let b := rotateLeft (b ^^^ c) 12
  let a := a + b
  let d := rotateLeft (d ^^^ a) 8
  let c := c + d
  let b := rotateLeft (b ^^^ c) 7
  (a, b, c, d)

/-- A quarter round on each column. -/
def columnRound (g : Grid) : Grid :=
  let columns := ((g.a.zip g.b).zip (g.c.zip g.d)).map fun ((a, b), (c, d)) => quarter a b c d
  ⟨columns.map (·.1), columns.map (·.2.1), columns.map (·.2.2.1), columns.map (·.2.2.2)⟩

/-- Moves the words of a row to the left, those at the front to the end. -/
def shift (n : Nat) (row : List UInt32) : List UInt32 := row.drop n ++ row.take n

/-- A round on the columns and one on the diagonals. -/
def doubleRound (g : Grid) : Grid :=
  let g := columnRound g
  let g := columnRound ⟨g.a, shift 1 g.b, shift 2 g.c, shift 3 g.d⟩
  ⟨g.a, shift 3 g.b, shift 2 g.c, shift 1 g.d⟩

def constants : List UInt32 := [0x61707865, 0x3320646e, 0x79622d32, 0x6b206574]

/-- Constants, key and counter. -/
def initial (key : List UInt32) (counter : Nat) : Grid :=
  ⟨constants, key.take 4, (key.drop 4).take 4,
    [UInt32.ofNat counter, UInt32.ofNat (counter / 0x100000000), 0, 0]⟩

/-- Applies a function so many times. -/
def times {α : Type} (f : α → α) : Nat → α → α
  | 0, a => a
  | n + 1, a => times f n (f a)

/-- The words of one block. -/
def block (key : List UInt32) (counter : Nat) : List UInt32 :=
  let start := initial key counter
  let g := times doubleRound 6 start
  (g.a ++ g.b ++ g.c ++ g.d).zipWith (· + ·) (start.a ++ start.b ++ start.c ++ start.d)

end ShotTally.ChaCha
