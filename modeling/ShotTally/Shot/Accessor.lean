/-
The datasets of a shot file as columns for rules.
-/
import ShotTally.Rule.Evaluation
import ShotTally.Shot.Alias
import ShotTally.Shot.File

namespace ShotTally.ShotFile

open Text

def keywordShapeReport (keyword path : String) (shape : List Nat) (shots : Nat) : Report :=
  Report.new .rule "keyword_shape" "keyword is neither per-shot nor scalar"
    |>.note "keyword" keyword
    |>.note "dataset" path
    |>.note "shape" (sizesText shape)
    |>.note "shots" (natText shots)

/-- The column of a dataset: a single value holds for all shots, else one for each is needed. -/
def columnOf (keyword path : String) (shots : Nat) : Dataset → Outcome Rule.Column
  | .numeric array =>
    match array.data with
    | [x] => .ok (.number x)
    | _ =>
      if array.rowCount = shots ∧ array.size = shots then .ok (.numbers array.data)
      else fail (keywordShapeReport keyword path array.shape shots)
  | .text values =>
    if values.length = shots then .ok (.labels values)
    else match values with
      | [label] => .ok (.label label)
      | _ => fail (keywordShapeReport keyword path [values.length] shots)

/-- The columns of a file with so many shots. -/
def accessor (f : ShotFile) (aliases : Aliases) (shots : Nat) : Rule.Accessor := fun keyword =>
  let path := aliases.resolve keyword
  match f.dataset? path with
  | some d => columnOf keyword path shots d
  | none => fail (Report.new .store "missing_dataset" "rule keyword not found in file"
      |>.note "keyword" keyword
      |>.note "dataset" path)

end ShotTally.ShotFile
