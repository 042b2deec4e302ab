/-
What a rule evaluates to: one flag for all shots, or a flag for each shot.
-/
import ShotTally.Failure
import ShotTally.Text.Numeral
import ShotTally.Rule.Operator

namespace ShotTally.Rule

inductive Mask where
  | constant (value : Bool)
  | flags (values : List Bool)
  deriving DecidableEq, Repr

namespace Mask

def lengthReport (left right : Nat) : Report :=
  Report.new .rule "mask_length" "operand masks differ in length"
    |>.note "left" (Text.natText left)
    |>.note "right" (Text.natText right)

def not : Mask → Mask
  | .constant b => .constant (!b)
  | .flags bs => .flags (bs.map (!·))

/-- Applies an operator shot by shot; a constant stands for as many flags as the other side. -/
def combine (op : Operator) : Mask → Mask → Outcome Mask
  | .constant a, .constant b => .ok (.constant (op.onFlags a b))
  | .constant a, .flags bs => .ok (.flags (bs.map (op.onFlags a ·)))
  | .flags as, .constant b => .ok (.flags (as.map (op.onFlags · b)))
  | .flags as, .flags bs =>
    if as.length ≠ bs.length then fail (lengthReport as.length bs.length)
    else .ok (.flags (as.zipWith op.onFlags bs))

/-- Exactly one flag for each of so many shots. -/
def toFlags (shots : Nat) : Mask → Outcome (List Bool)
  | .constant b => .ok (List.replicate shots b)
  | .flags bs => if bs.length = shots then .ok bs else fail (lengthReport bs.length shots)

/-- Number of selected shots, when there is a flag for each. -/
def count? : Mask → Option Nat
  | .constant _ => none
  | .flags bs => some (bs.count true)

end Mask
end ShotTally.Rule
