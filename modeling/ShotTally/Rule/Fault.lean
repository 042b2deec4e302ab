/-
What can be wrong with a rule's text. Each fault points at a place in the text.
-/
import ShotTally.Failure
import ShotTally.Text.Numeral
import ShotTally.Rule.Lexeme

namespace ShotTally.Rule

inductive Problem where
  | comparisonWithoutKeyword
  | missingComparison (keyword : String)
  | missingOperand (keyword : String)
  | operandNotNumeric
  | optionsNeverClosed
  | comparisonAmongOptions
  | noOptions (keyword : String)
  | missingBeforeClosing
  | unmatchedClosing
  | missingLeftOperand
  | endsWithoutOperand
  | neverClosed
  deriving DecidableEq, Repr

namespace Problem

def code : Problem → String
  | .comparisonWithoutKeyword => "missing_keyword"
  | .missingComparison _ => "missing_comparison"
  | .missingOperand _ | .noOptions _ | .missingBeforeClosing => "missing_operand"
  | .operandNotNumeric => "operand_not_numeric"
  | .optionsNeverClosed | .unmatchedClosing | .neverClosed => "unbalanced_parenthesis"
  | .comparisonAmongOptions => "unexpected_token"
  | .missingLeftOperand | .endsWithoutOperand => "dangling_operator"

def message : Problem → String
  | .comparisonWithoutKeyword => "comparison without a keyword"
  | .missingComparison keyword => "keyword '" ++ keyword ++ "' is not followed by a comparison"
  | .missingOperand keyword => "keyword '" ++ keyword ++ "' has no operand"
  | .operandNotNumeric => "numeric comparison needs a numeric operand"
  | .optionsNeverClosed => "option group is never closed"
  | .comparisonAmongOptions => "comparison inside an option group"
  | .noOptions keyword => "option group of '" ++ keyword ++ "' is empty"
  | .missingBeforeClosing => "expected an operand before ')'"
  | .unmatchedClosing => "')' has no matching '('"
  | .missingLeftOperand => "binary operator is missing its left operand"
  | .endsWithoutOperand => "rule ends without an operand"
  | .neverClosed => "'(' is never closed"

end Problem

/-- A problem, with the text at the place where it shows and that place as a byte of the rule. -/
structure Fault where
  problem : Problem
  source : String
  token : String
  position : Nat
  deriving DecidableEq, Repr

namespace Fault

def report (f : Fault) : Report :=
  Report.new .rule f.problem.code f.problem.message
    |>.note "rule" f.source
    |>.note "token" f.token
    |>.note "position" (Text.natText f.position)

def failure (f : Fault) : Failure := .reported f.report

/-- A problem at the next lexeme, or at the end of the text when none is left. -/
def atNext (problem : Problem) (source : String) : List Lexeme → Fault
  | [] => ⟨problem, source, "<end>", source.utf8ByteSize⟩
  | l :: _ => ⟨problem, source, l.initial, l.position⟩

end Fault
end ShotTally.Rule
