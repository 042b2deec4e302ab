/-
Evaluating a rule. Conditions stay unevaluated on the stack until an operator needs them, so a
column is asked for only then, each at most once; a constant left operand that decides a
conjunction or a disjunction leaves the right operand untouched.
-/
import ShotTally.Rule.Mask
import ShotTally.Rule.Predicate

namespace ShotTally.Rule

/-- The values of a keyword: one for each shot, or one for all. -/
inductive Column where
  | numbers (values : List Double)
  | labels (values : List String)
  | number (value : Double)
  | label (value : String)
  deriving DecidableEq

/-- Number of values of a column that has one for each shot. -/
def Column.length? : Column → Option Nat
  | .numbers xs => some xs.length
  | .labels xs => some xs.length
  | .number _ | .label _ => none

/-- Where columns come from. -/
abbrev Accessor := String → Outcome Column

/-- An accessor over columns held in memory. -/
def Accessor.ofColumns (columns : Keyed Column) : Accessor := fun keyword =>
  match columns.get? keyword with
  | some c => .ok c
  | none => fail (Report.new .rule "unknown_keyword" "keyword is not bound"
      |>.note "keyword" keyword)

namespace Atom

/-- The condition on a label; to compare as numbers the label has to read as one. -/
def onLabel (a : Atom) (value : String) : Outcome Bool :=
  match a.comparison with
  | .textEqual => .ok (value == a.operand)
  | numeric =>
    match Double.parse? (Text.strip value.toList) with
    | some x => .ok (numeric.onNumbers x (a.number.getD .nan))
    | none => fail (Report.new .rule "text_not_numeric" "numeric comparison on non-numeric text"
        |>.note "keyword" a.keyword
        |>.note "value" value)

/-- The condition on a number; equality as text is that of the canonical texts. -/
def onNumber (a : Atom) (value : Double) : Bool :=
  match a.comparison with
  | .textEqual => value.text == a.canonicalOperand
  | numeric => numeric.onNumbers value (a.number.getD .nan)

def onColumn (a : Atom) : Column → Outcome Mask
  | .numbers xs => .ok (.flags (xs.map a.onNumber))
  | .number x => .ok (.constant (a.onNumber x))
  | .labels xs => do return .flags (← xs.mapM a.onLabel)
  | .label x => do return .constant (← a.onLabel x)

end Atom

namespace Predicate

/-- What has been learnt so far: the columns received and the keywords asked for, in order. -/
structure Inquiry where
  columns : List (String × Column)
  asked : List String

def Inquiry.start : Inquiry := ⟨[], []⟩

abbrev Asking (α : Type) := ExceptT Failure (StateM Inquiry) α

/-- An operand: a condition not looked at yet, or a mask. -/
inductive Slot where
  | pending (index : Nat)
  | ready (mask : Mask)

def malformed : Failure :=
  .reported (Report.new .rule "stack_underflow" "postfix program is malformed")

/-- The column of a keyword, from the accessor the first time and remembered afterwards. -/
def column (accessor : Accessor) (keyword : String) : Asking Column := do
  match (← get).columns.lookup keyword with
  | some c => return c
  | none =>
    modify fun q => { q with asked := q.asked ++ [keyword] }
    let c ← ExceptT.mk (pure (accessor keyword))
    modify fun q => { q with columns := (keyword, c) :: q.columns }
    return c

/-- The mask of an operand. -/
def resolve (p : Predicate) (accessor : Accessor) : Slot → Asking Mask
  | .ready m => return m
  | .pending i => do
    match p.atoms[i]? with
    | none => throw malformed
    | some a =>
      let c ← column accessor a.keyword
      ExceptT.mk (pure (a.onColumn c))

/-- Whether a constant left operand settles the result. -/
def settles (op : Operator) (left : Mask) : Bool :=
  match op, left with
  | .and, .constant false | .implicitAnd, .constant false | .or, .constant true => true
  | _, _ => false

/-- One step on a stack of operands, the latest first. -/
def perform (p : Predicate) (accessor : Accessor) (stack : List Slot) : Step → Asking (List Slot)
  | .atom i => return .pending i :: stack
  | .apply .not =>
    match stack with
    | operand :: rest => do
      let m ← p.resolve accessor operand
      return .ready m.not :: rest
    | [] => throw malformed
  | .apply op =>
    match stack with
    | right :: left :: rest => do
      let l ← p.resolve accessor left
      if settles op l then return .ready l :: rest
      else
        let r ← p.resolve accessor right
        let m ← ExceptT.mk (pure (Mask.combine op l r))
        return .ready m :: rest
    | _ => throw malformed

/-- The value of a rule, asking the accessor as needed. -/
def inquire (p : Predicate) (accessor : Accessor) : Asking Mask := do
  if p.isTrivial then return .constant true
  let stack ← p.steps.foldlM (p.perform accessor) []
  match stack with
  | [top] => p.resolve accessor top
  | _ => throw malformed

/-- The value of a rule. -/
def evaluate (p : Predicate) (accessor : Accessor) : Outcome Mask :=
  ((p.inquire accessor).run Inquiry.start).1

/-- The keywords that evaluating a rule asks for, in order, also when it fails. -/
def asked (p : Predicate) (accessor : Accessor) : List String :=
  ((p.inquire accessor).run Inquiry.start).2.asked

/-- The flags of a rule, one for each of so many shots. -/
def mask (p : Predicate) (accessor : Accessor) (shots : Nat) : Outcome (List Bool) := do
  (← p.evaluate accessor).toFlags shots

end Predicate
end ShotTally.Rule
