/-
Slices of the axes of an array after axis 0.
-/
import ShotTally.Slice.Axis
import ShotTally.Tensor.Gather

namespace ShotTally

open Text

/-- Slices for axis 1, axis 2 and so on; axes without a slice are taken whole. -/
structure Slices where
  axes : List AxisSlice
  deriving DecidableEq, Repr

namespace Slices

def none : Slices := ⟨[]⟩

def parse (parts : List String) : Outcome Slices := do return ⟨← parts.mapM AxisSlice.parse⟩

def isEmpty (s : Slices) : Bool := s.axes.isEmpty

def text (s : Slices) : String := "[" ++ ", ".intercalate (s.axes.map AxisSlice.text) ++ "]"

/-- The positions picked on each of the given axes. -/
def positions : List AxisSlice → List Nat → List (List Nat)
  | _, [] => []
  | [], n :: shape => List.range n :: positions [] shape
  | s :: slices, n :: shape => s.indices n :: positions slices shape

/-- Slices an array; there may be no more slices than axes after axis 0. A slice without positions on its axis
breaks off. -/
def apply {α : Type} (s : Slices) (t : Tensor α) : Outcome (Tensor α) :=
  if s.axes.isEmpty then .ok t
  else if t.rank - 1 < s.axes.length then
    fail (Report.new .compile "slice_axes" "more slices than trailing axes"
      |>.note "slices" (natText s.axes.length)
      |>.note "shape" (sizesText t.shape))
  else if (s.axes.zip t.innerShape).any fun p => (p.1.indices? .words p.2).isNone then .error .outOfRange
  else t.gather (List.range t.rowCount :: positions s.axes t.innerShape)

end Slices
end ShotTally
