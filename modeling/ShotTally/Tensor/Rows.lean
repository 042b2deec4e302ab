/-
Selecting, summing and joining the rows of arrays.
-/
import ShotTally.Tensor.Basic

namespace ShotTally.Tensor

open Text

variable {α : Type}

/-- The elements of the rows whose flag is set. -/
def keepRows (width : Nat) : List Bool → List α → Outcome (List α)
  | [], _ => .ok []
  | true :: flags, data => do
    let (first, rest) ← takeExactly width data
    return first ++ (← keepRows width flags rest)
  | false :: flags, data => keepRows width flags (data.drop width)

/-- The rows whose flag is set; a flag for each row is required. -/
def selectRows (flags : List Bool) (t : Tensor α) : Outcome (Tensor α) :=
  if flags.length ≠ t.rowCount then
    fail (Report.new .stats "mask_length" "row mask does not match axis 0"
      |>.note "rows" (natText t.rowCount)
      |>.note "mask" (natText flags.length))
  else do return ⟨flags.count true :: t.innerShape, ← keepRows t.rowWidth flags t.data⟩

/-- The sum of all rows, element by element from the first row on. -/
def sumRows [Scalar α] (t : Tensor α) : Outcome (Tensor α) := do
  let total := (← t.rows).foldl (List.zipWith (· + ·)) (List.replicate t.rowWidth Scalar.zero)
  return ⟨t.innerShape, total⟩

/-- Joins arrays along axis 0. -/
def concatRows (parts : List (Tensor α)) : Outcome (Tensor α) :=
  match parts with
  | [] => fail (Report.new .stats "concat_empty" "nothing to concatenate")
  | first :: _ =>
    match parts.find? fun p => p.innerShape != first.innerShape with
    | some odd => fail (Report.new .stats "concat_shape" "row shapes differ"
        |>.note "expected" (shapeText first.innerShape)
        |>.note "found" (shapeText odd.innerShape))
    | none =>
      .ok ⟨parts.foldr (fun p n => p.rowCount + n) 0 :: first.innerShape, parts.flatMap (·.data)⟩

/-- Puts arrays of one shape side by side along a new axis 0. -/
def stack (parts : List (Tensor α)) : Outcome (Tensor α) :=
  match parts with
  | [] => fail (Report.new .stats "stack_empty" "nothing to stack")
  | first :: _ =>
    match parts.find? fun p => p.shape != first.shape with
    | some odd => fail (Report.new .stats "stack_shape" "stacked arrays differ in shape"
        |>.note "expected" (shapeText first.shape)
        |>.note "found" (shapeText odd.shape))
    | none => .ok ⟨parts.length :: first.shape, parts.flatMap (·.data)⟩

end ShotTally.Tensor
