/-
Cutting a list of files into blocks whose results are kept apart.
-/
import ShotTally.Failure

namespace ShotTally.Cache

structure Block where
  files : List String
  /-- Whether the block has its full number of files. -/
  complete : Bool
  deriving DecidableEq, Repr

/-- Runs of `size` files, the last one perhaps shorter. -/
def chunks (size : Nat) : (count : Nat) → List String → List (List String)
  | 0, _ => []
  | _, [] => []
  | n + 1, files => files.take size :: chunks size n (files.drop size)

/-- Blocks of a positive size, or one block of all files. -/
def planBlocks (files : List String) : Option Nat → Outcome (List Block)
  | none => .ok [⟨files, true⟩]
  | some 0 => fail (Report.new .config "block_size" "block size must be positive")
  | some size =>
    .ok ((chunks size files.length files).map fun part => ⟨part, part.length == size⟩)

end ShotTally.Cache
