/-
Arrays of numbers of any rank: a shape, and the elements in row-major order. The operations that
build an array check that shape and elements fit; an array read from elsewhere may not fit, and
reading past the end of its elements fails.
-/
import ShotTally.Failure
import ShotTally.Number.Scalar
import ShotTally.Text.Numeral

namespace ShotTally

open Text

structure Tensor (α : Type) where
  shape : List Nat
  data : List α
  deriving DecidableEq

/-- Number of elements of a shape. -/
def volume (shape : List Nat) : Nat := shape.foldr (· * ·) 1

/-- Sizes in parentheses, as array reports show them. -/
def shapeText (shape : List Nat) : String := "(" ++ ", ".intercalate (shape.map natText) ++ ")"

/-- Sizes in brackets. -/
def sizesText (shape : List Nat) : String := "[" ++ ", ".intercalate (shape.map natText) ++ "]"

namespace Tensor

variable {α β : Type}

/-- There are as many elements as the shape calls for. -/
def WellFormed (t : Tensor α) : Prop := t.data.length = volume t.shape

instance (t : Tensor α) : Decidable t.WellFormed := inferInstanceAs (Decidable (_ = _))

/-! ## Building -/

def make (shape : List Nat) (data : List α) : Outcome (Tensor α) :=
  if volume shape = data.length then .ok ⟨shape, data⟩
  else fail (Report.new .stats "array_shape" "data length does not match shape"
    |>.note "shape" (shapeText shape)
    |>.note "len" (natText data.length))

def filled (value : α) (shape : List Nat) : Tensor α :=
  ⟨shape, List.replicate (volume shape) value⟩

def zeros [Scalar α] (shape : List Nat) : Tensor α := filled Scalar.zero shape

def scalar (value : α) : Tensor α := ⟨[], [value]⟩

def ofList (values : List α) : Tensor α := ⟨[values.length], values⟩

def map (f : α → β) (t : Tensor α) : Tensor β := ⟨t.shape, t.data.map f⟩

/-- The same elements under another shape. -/
def reshape (shape : List Nat) (t : Tensor α) : Outcome (Tensor α) :=
  if volume shape = t.data.length then .ok ⟨shape, t.data⟩
  else fail (Report.new .stats "array_reshape" "cannot reshape array"
    |>.note "from" (shapeText t.shape)
    |>.note "to" (shapeText shape))

/-! ## Axes and rows -/

def rank (t : Tensor α) : Nat := t.shape.length

def size (t : Tensor α) : Nat := t.data.length

def isEmpty (t : Tensor α) : Bool := t.data.isEmpty

/-- Length of axis 0; a single number counts as one row. -/
def rowCount (t : Tensor α) : Nat := t.shape.headD 1

/-- Shape of one row. -/
def innerShape (t : Tensor α) : List Nat := t.shape.tail

/-- Number of elements in a row. -/
def rowWidth (t : Tensor α) : Nat := volume t.innerShape

/-- So many leading elements, and the rest. -/
def takeExactly (width : Nat) (data : List α) : Outcome (List α × List α) :=
  let part := data.take width
  if part.length = width then .ok (part, data.drop width) else .error .outOfRange

/-- One row. -/
def row (t : Tensor α) (index : Nat) : Outcome (List α) :=
  (takeExactly t.rowWidth (t.data.drop (index * t.rowWidth))).map (·.1)

/-- So many rows from the front of the elements. -/
def splitRows (width : Nat) : Nat → List α → Outcome (List (List α))
  | 0, _ => .ok []
  | n + 1, data => do
    let (first, rest) ← takeExactly width data
    return first :: (← splitRows width n rest)

/-- All rows in order. -/
def rows (t : Tensor α) : Outcome (List (List α)) := splitRows t.rowWidth t.rowCount t.data

end Tensor
end ShotTally
