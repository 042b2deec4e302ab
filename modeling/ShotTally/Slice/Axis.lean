/-
Slices of one axis: an optional start, an optional exclusive stop and a step. Negative positions
count from the end of the axis, and positions outside it are moved to its ends.
-/
import ShotTally.Failure
import ShotTally.Number.Word
import ShotTally.Text.Blank
import ShotTally.Text.Numeral
import ShotTally.Text.Split

namespace ShotTally

open Text

structure AxisSlice where
  start : Option Int
  stop : Option Int
  step : Int
  deriving DecidableEq, Repr

namespace AxisSlice

/-- Everything. -/
def full : AxisSlice := ⟨none, none, 1⟩

def range (start stop : Int) : AxisSlice := ⟨some start, some stop, 1⟩

/-! ## Positions -/

/-- A position counted from the end becomes one counted from the front; then it is moved into the range from `low`
to `high`. A range whose ends have crossed has no place for it. -/
def resolve (a : Arithmetic) (len low high position : Int) : Option Int :=
  if high < low then none
  else some (max low (min high (if position < 0 then a.signed (position + len) else position)))

/-- The place of a bound, or of one that is left out. -/
def place (a : Arithmetic) (len low high default : Int) : Option Int → Option Int
  | none => some default
  | some position => resolve a len low high position

/-- Where the positions start and where they stop. Going down there is room for a stop before the first position. -/
def ends (a : Arithmetic) (s : AxisSlice) (len : Int) : Option (Int × Int) :=
  if 0 < s.step then do
    return (← place a len 0 len 0 s.start, ← place a len 0 len len s.stop)
  else do
    let last := a.signed (len - 1)
    return (← place a len (-1) last last s.start, ← place a len (-1) last (-1) s.stop)

/-- Whether the stop is still ahead. -/
def ahead (stop step i : Int) : Bool := if 0 < step then decide (i < stop) else decide (stop < i)

/-- Takes up positions step by step for as long as the stop is ahead. There is nothing if it still is after so many
steps. -/
def visit (a : Arithmetic) (stop step : Int) : Nat → Int → Array Nat → Option (List Nat)
  | 0, i, taken => if ahead stop step i then none else some taken.toList
  | n + 1, i, taken =>
    if ahead stop step i then visit a stop step n (a.signed (i + step)) (taken.push (a.position i))
    else some taken.toList

/-- The positions selected on an axis of the given length. There are none if a bound has no place, or if the stop is
never reached: it is reached within as many steps as there are positions, or else as there are words. -/
def indices? (a : Arithmetic) (s : AxisSlice) (length : Nat) : Option (List Nat) := do
  let (start, stop) ← s.ends a (a.signed length)
  visit a stop s.step (length + nat64End) start #[]

/-- The positions selected in words. -/
def indices (s : AxisSlice) (length : Nat) : List Nat := (s.indices? .words length).getD []

/-! ## Text -/

def text (s : AxisSlice) : String :=
  let bound (b : Option Int) : String := (b.map intText).getD ""
  bound s.start ++ ":" ++ bound s.stop ++ (if s.step = 1 then "" else ":" ++ intText s.step)

inductive Problem where
  | notAnInteger
  | empty
  | outOfRange
  | zeroStep
  | tooManyParts
  deriving DecidableEq, Repr

def Problem.report (problem : Problem) (source : String) : Report :=
  let (code, message) := match problem with
    | .notAnInteger => ("slice_parse", "slice bound is not an integer")
    | .empty => ("slice_parse", "empty slice")
    | .outOfRange => ("slice_bound", "slice index out of range")
    | .zeroStep => ("slice_step", "slice step cannot be zero")
    | .tooManyParts => ("slice_parse", "too many ':' in slice")
  Report.new .compile code message |>.note "slice" source

/-- A bound between blanks; nothing between them means there is no bound. -/
def bound? (part : List Char) : Except Problem (Option Int) :=
  match strip part with
  | [] => .ok none
  | digits => match int64? digits with
    | some i => .ok (some i)
    | none => .error .notAnInteger

/-- A slice as written; a bare position selects that position alone. -/
def read (source : List Char) : Except Problem AxisSlice :=
  match splitAt ':' source with
  | [single] => do
    match ← bound? single with
    | none => throw .empty
    | some i =>
      if i = -1 then return ⟨some i, none, 1⟩
      else if i + 1 < Text.int64End then return ⟨some i, some (i + 1), 1⟩
      else throw .outOfRange
  | [start, stop] => do
    let start ← bound? start
    let stop ← bound? stop
    return ⟨start, stop, 1⟩
  | [start, stop, step] => do
    let step := (← bound? step).getD 1
    if step = 0 then throw .zeroStep
    let start ← bound? start
    let stop ← bound? stop
    return ⟨start, stop, step⟩
  | _ => throw .tooManyParts

def parse (source : String) : Outcome AxisSlice :=
  (read source.toList).mapError fun p => .reported (p.report source)

end AxisSlice
end ShotTally
