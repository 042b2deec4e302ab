/-
Sorting the rows of a file into buckets. The quantity is brought into a form with one row for
each shot, or with a single row when it does not have one for each; a row goes to the bucket of
its shot's condition under every rule that selects the shot.
-/
import ShotTally.Bucket.Basic
import ShotTally.Notice
import ShotTally.Query
import ShotTally.Shot.Accessor

namespace ShotTally

open Text

/-- How the files of a run are read. -/
structure ReadingPlan where
  aliases : Aliases
  shotIndexDataset : String
  sourcePeriodDataset : String
  /-- A configured period is used in place of the stored one. -/
  sourcePeriod : Option Int
  sourceOffset : Int
  modulator : Signal
  deriving DecidableEq

namespace ReadingPlan

/-- The quantity with rows along axis 0, and whether there is one for each shot. -/
def arrange {α : Type} (array : Tensor α) (shots : Nat) : Outcome (Tensor α × Bool) :=
  match array.shape with
  | [] => do return (← array.reshape [1, 1], false)
  | [_] =>
    if array.size = shots then do return (← array.reshape [shots, 1], true)
    else do return (← array.reshape [1, array.size], false)
  | n :: _ =>
    if n = shots then .ok (array, true)
    else do return (← array.reshape (1 :: array.shape), false)

/-- The period of the source: the configured one, else the first stored value, else unknown. -/
def periodOf (plan : ReadingPlan) (file : ShotFile) (name : String) : Noted Int :=
  match plan.sourcePeriod with
  | some period => return period
  | none =>
    match (file.numeric? plan.sourcePeriodDataset).bind (·.data.head?) with
    | some value => return value.toInt64
    | none => do
      Noted.give (.sourcePeriodMissing plan.sourcePeriodDataset name)
      return -1

/-- The selections of the conditions and those of the rules. -/
structure Selections where
  conditions : List (List Bool)
  rules : List (List Bool)
  deriving DecidableEq

/-- The selections among shots, each with a row of its own. -/
def selectShots (plan : ReadingPlan) (file : ShotFile) (name : String) (splits : Splits)
    (rules : List Rule.Predicate) (shots : List Int) : Noted Selections := do
  let source : Signal := ⟨← plan.periodOf file name, plan.sourceOffset⟩
  let flags := ShotFlags.classify source plan.modulator shots
  let accessor := file.accessor plan.aliases shots.length
  let masks ← Noted.lift (rules.mapM fun r => r.mask accessor shots.length)
  return ⟨flags.masks splits, masks⟩

/-- A single row counts as a shot of the first condition that every rule selects. -/
def selectSingle (rules : List Rule.Predicate) : Selections :=
  ⟨[[true], [false], [false], [false]], rules.map fun _ => [true]⟩

/-- The rows of every bucket, conditions first. -/
def bucketRows {α : Type} (s : Selections) (data : Tensor α) : Outcome (List (Tensor α)) :=
  (s.conditions.flatMap fun c => s.rules.map fun r => c.zipWith (· && ·) r).mapM fun mask =>
    data.selectRows mask

/-- The dataset of the quantity; a file without it is skipped. -/
def quantityIn (plan : ReadingPlan) (file : ShotFile) (name quantity : String) :
    Noted (Option (Tensor Double)) :=
  let path := plan.aliases.resolve quantity
  match file.dataset? path with
  | none => do
    Noted.give (.quantityMissing quantity path name)
    return none
  | some (.text _) =>
    Noted.lift (fail (Report.new .compile "quantity_not_numeric"
        "aggregated quantity must be numeric"
      |>.note "file" name
      |>.note "quantity" quantity))
  | some (.numeric array) => return some array

/-- The buckets of a file, or none when it lacks the quantity. -/
def compile {α : Type} [Scalar α] (plan : ReadingPlan) (file : ShotFile) (name : String)
    (query : Query) (rules : List Rule.Predicate) : Noted (Option (FileBuckets α)) := do
  if rules.length ≠ query.rules.length then
    Noted.lift (fail (Report.new .compile "rule_count"
        "compiled rules do not match the query's rules"
      |>.note "file" name
      |>.note "query_rules" (natText query.rules.length)
      |>.note "compiled_rules" (natText rules.length)))
  let shots ← Noted.lift ((file.shotIndices plan.shotIndexDataset).within "file" name)
  match ← plan.quantityIn file name query.quantity with
  | none => return none
  | some array =>
    let (layout, perShot) ← Noted.lift (arrange array shots.length)
    let data ← Noted.lift (((query.slices.apply layout).within "file" name).within "quantity"
      query.quantity)
    let selections ←
      if perShot then plan.selectShots file name query.splits rules shots
      else do
        if query.splits.any then
          Noted.give (.notPerShot query.quantity name array.shape shots.length)
        pure (selectSingle rules)
    let rows ← Noted.lift (bucketRows selections (data.map Scalar.ofDouble))
    return some ⟨name, query.bucketShape, rows⟩

end ReadingPlan
end ShotTally
