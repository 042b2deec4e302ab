/-
What is asked for: a quantity, the rules that select shots, the signals that separate them into
conditions, and slices of the data.
-/
import ShotTally.Condition.Basic
import ShotTally.Slice.Trailing

namespace ShotTally

structure Query where
  quantity : String
  /-- An absent rule selects every shot. -/
  rules : List (Option String)
  splits : Splits
  slices : Slices
  deriving DecidableEq

namespace Query

/-- Every shot of a quantity, in one condition. -/
def all (quantity : String) : Query := ⟨quantity, [none], .none, .none⟩

/-- Sets the rules; without any, every shot is selected. -/
def withRules (q : Query) (rules : List (Option String)) : Query :=
  { q with rules := if rules.isEmpty then [none] else rules }

/-- A bucket for each condition and rule. -/
def bucketShape (q : Query) : List Nat := [Condition.all.length, q.rules.length]

end Query
end ShotTally
