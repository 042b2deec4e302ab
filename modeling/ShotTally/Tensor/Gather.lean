/-
Picking positions along every axis of an array.
-/
import ShotTally.Number.Word
import ShotTally.Tensor.Basic

namespace ShotTally.Tensor

open Text

variable {α : Type}

/-- The first position beyond the end of its axis, with that axis. -/
def beyond (axis : Nat) : List Nat → List (List Nat) → Option (Nat × Nat)
  | n :: shape, positions :: others =>
    match positions.find? fun i => decide (n ≤ i) with
    | some i => some (axis, i)
    | none => beyond (axis + 1) shape others
  | _, _ => none

/-! ## Going through the positions -/

/-- How far apart neighbours along each axis are: as many elements as the axes behind it have together. -/
def strides (a : Arithmetic) (shape : List Nat) : List Nat :=
  (shape.foldr (fun n (stride, strides) => (a.count (stride * n), stride :: strides)) (1, [])).2

/-- The cursor after a cursor, and whether it has come round. The last axis goes on by one; at its end it starts
again, and the axis before it goes on. -/
def advance : (sizes cursor : List Nat) → Bool × List Nat
  | n :: sizes, i :: cursor =>
    match advance sizes cursor with
    | (true, rest) => if i + 1 < n then (false, (i + 1) :: rest) else (true, 0 :: rest)
    | (false, rest) => (false, i :: rest)
  | _, _ => (true, [])

/-- Where the element of a cursor is: the cursor has for each axis a place in the list of its positions. -/
def offsetAt (a : Arithmetic) : (lists : List (Array Nat)) → (strides cursor : List Nat) → Nat
  | list :: lists, stride :: strides, i :: cursor =>
    a.count (a.count (list.getD i 0 * stride) + offsetAt a lists strides cursor)
  | _, _, _ => 0

/-- The element at an offset. -/
def readAt (data : Array α) (offset : Nat) : Outcome α :=
  match data[offset]? with
  | some x => .ok x
  | none => .error .outOfRange

/-- Takes up so many elements from a cursor on. -/
def visit (a : Arithmetic) (lists : List (Array Nat)) (strides : List Nat) (data : Array α) :
    Nat → List Nat → Array α → Outcome (List α)
  | 0, _, taken => .ok taken.toList
  | n + 1, cursor, taken => do
    let x ← readAt data (offsetAt a lists strides cursor)
    visit a lists strides data n (advance (lists.map Array.size) cursor).2 (taken.push x)

/-- The array of the elements at the given positions, one list for each axis. -/
def gatherIn (a : Arithmetic) (positions : List (List Nat)) (t : Tensor α) : Outcome (Tensor α) :=
  if positions.length ≠ t.rank then
    fail (Report.new .stats "gather_axes" "one index list per axis is required"
      |>.note "ndim" (natText t.rank)
      |>.note "lists" (natText positions.length))
  else match beyond 0 t.shape positions with
    | some (axis, index) => fail (Report.new .stats "gather_bounds" "index out of bounds"
        |>.note "axis" (natText axis)
        |>.note "index" (natText index))
    | none => do
      let sizes := positions.map List.length
      let total := a.count (volume sizes)
      let cursor := sizes.map fun _ => 0
      return ⟨sizes, ← visit a (positions.map List.toArray) (strides a t.shape) t.data.toArray total cursor #[]⟩

/-- The array of the elements at the given positions, with counts and offsets in words. -/
def gather (positions : List (List Nat)) (t : Tensor α) : Outcome (Tensor α) := t.gatherIn .words positions

end ShotTally.Tensor
