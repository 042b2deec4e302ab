/-
The marks of the rule language: logical operators between conditions, and comparisons between a
keyword and an operand.
-/
import ShotTally.Number.Double

namespace ShotTally.Rule

inductive Operator where
  | and
  | or
  | xor
  | not
  /-- Understood between adjacent operands that have no operator between them. -/
  | implicitAnd
  deriving DecidableEq, Repr

namespace Operator

def ofSymbol? : Char → Option Operator
  | '&' => some .and
  | '|' => some .or
  | '^' => some .xor
  | '~' => some .not
  | _ => none

/-- How strongly an operator binds. A negation waiting for its operand is completed before any
binary operator, whatever this number says. -/
def precedence : Operator → Nat
  | .and => 2
  | .or | .xor | .not => 1
  | .implicitAnd => 0

/-- Number of operands. -/
def arity : Operator → Nat
  | .not => 1
  | _ => 2

def symbol : Operator → String
  | .and | .implicitAnd => "&"
  | .or => "|"
  | .xor => "^"
  | .not => "~"

def name : Operator → String
  | .and => "And"
  | .or => "Or"
  | .xor => "Xor"
  | .not => "Not"
  | .implicitAnd => "ImplicitAnd"

def all : List Operator := [.and, .or, .xor, .not, .implicitAnd]

/-- The operator on two flags; a negation looks at the left one only. -/
def onFlags : Operator → Bool → Bool → Bool
  | .and, a, b | .implicitAnd, a, b => a && b
  | .or, a, b => a || b
  | .xor, a, b => a != b
  | .not, a, _ => !a

end Operator

inductive Comparison where
  | textEqual
  | greater
  | less
  | numberEqual
  deriving DecidableEq, Repr

namespace Comparison

def ofSymbol? : Char → Option Comparison
  | ':' | ';' => some .textEqual
  | '>' => some .greater
  | '<' => some .less
  | '=' => some .numberEqual
  | _ => none

/-- Whether values are compared as numbers. -/
def isNumeric : Comparison → Bool
  | .textEqual => false
  | _ => true

def symbol : Comparison → String
  | .textEqual => ":"
  | .greater => ">"
  | .less => "<"
  | .numberEqual => "="

def name : Comparison → String
  | .textEqual => "StringEq"
  | .greater => "NumGt"
  | .less => "NumLt"
  | .numberEqual => "NumEq"

/-- The comparison on numbers. -/
def onNumbers : Comparison → Double → Double → Bool
  | .greater, value, operand => operand.lt value
  | .less, value, operand => value.lt operand
  | .numberEqual, value, operand | .textEqual, value, operand => value.numEq operand

end Comparison
end ShotTally.Rule
