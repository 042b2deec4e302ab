/-
Tokens of a rule: conditions on one keyword, operators and parentheses. A group of options such
as `slu:(0|1)` is spelled out here, each option becoming a condition on the group's keyword, and
between operands that stand side by side the implicit conjunction is put in.
-/
import ShotTally.Decimal.Layout
import ShotTally.Decimal.Reading
import ShotTally.Rule.Fault

namespace ShotTally.Rule

/-- A condition on the values of one keyword. -/
structure Atom where
  keyword : String
  comparison : Comparison
  /-- The operand as written. -/
  operand : String
  /-- The operand as a number, if it reads as one. -/
  number : Option Double
  deriving DecidableEq

namespace Atom

def text (a : Atom) : String := a.keyword ++ a.comparison.symbol ++ a.operand

/-- The operand that the text of a number is compared with. -/
def canonicalOperand (a : Atom) : String :=
  match a.number with
  | some x => x.text
  | none => a.operand

/-- A condition whose operand stands at the given place; comparing as numbers needs a number. -/
def make (source : String) (keyword : List Char) (comparison : Comparison) (operand : List Char)
    (position : Nat) : Except Fault Atom :=
  let number := Double.parse? operand
  if comparison.isNumeric && number.isNone then
    .error ⟨.operandNotNumeric, source, String.ofList operand, position⟩
  else .ok ⟨String.ofList keyword, comparison, String.ofList operand, number⟩

end Atom

inductive Token.Kind where
  | atom (a : Atom)
  | operator (op : Operator)
  | opening
  | closing
  deriving DecidableEq

structure Token where
  kind : Token.Kind
  position : Nat
  deriving DecidableEq

namespace Token

/-- The token as a fault shows it. -/
def text (t : Token) : String :=
  match t.kind with
  | .atom a => a.text
  | .operator op => op.symbol
  | .opening => "("
  | .closing => ")"

/-! ## From lexemes -/

mutual

/-- Tokens outside any group of options. -/
def explicit (source : String) : List Lexeme → Except Fault (List Token)
  | [] => .ok []
  | .mark c p :: rest =>
    match Operator.ofSymbol? c with
    | some op => do return ⟨.operator op, p⟩ :: (← explicit source rest)
    | none =>
      if c = '(' then do return ⟨.opening, p⟩ :: (← explicit source rest)
      else if c = ')' then do return ⟨.closing, p⟩ :: (← explicit source rest)
      else .error (Fault.atNext .comparisonWithoutKeyword source (.mark c p :: rest))
  | .word keyword p :: afterKeyword =>
    let noComparison : Except Fault (List Token) :=
      .error (Fault.atNext (.missingComparison (String.ofList keyword)) source afterKeyword)
    match afterKeyword with
    | .mark c _ :: afterMark =>
      match Comparison.ofSymbol? c with
      | none => noComparison
      | some comparison =>
        match afterMark with
        | .word operand q :: rest => do
          let a ← Atom.make source keyword comparison operand q
          return ⟨.atom a, p⟩ :: (← explicit source rest)
        | .mark '(' q :: rest => do
          return ⟨.opening, q⟩ :: (← options source keyword comparison q 0 false rest)
        | other =>
          .error (Fault.atNext (.missingOperand (String.ofList keyword)) source other)
    | _ => noComparison

/-- Tokens from within a group of options, `inner` parentheses below the one that opened it. -/
def options (source : String) (keyword : List Char) (comparison : Comparison) (opened : Nat)
    (inner : Nat) (seen : Bool) : List Lexeme → Except Fault (List Token)
  | [] => .error ⟨.optionsNeverClosed, source, "(", opened⟩
  | .mark c p :: rest =>
    match Operator.ofSymbol? c with
    | some op => do
      return ⟨.operator op, p⟩ :: (← options source keyword comparison opened inner seen rest)
    | none =>
      if c = '(' then do
        return ⟨.opening, p⟩ :: (← options source keyword comparison opened (inner + 1) seen rest)
      else if c = ')' then
        match inner with
        | 0 =>
          if seen then do return ⟨.closing, p⟩ :: (← explicit source rest)
          else .error ⟨.noOptions (String.ofList keyword), source, "(", opened⟩
        | inner + 1 => do
          return ⟨.closing, p⟩ :: (← options source keyword comparison opened inner seen rest)
      else .error (Fault.atNext .comparisonAmongOptions source (.mark c p :: rest))
  | .word operand p :: rest => do
    let a ← Atom.make source keyword comparison operand p
    return ⟨.atom a, p⟩ :: (← options source keyword comparison opened inner true rest)

end

/-! ## The implicit conjunction -/

def endsOperand (t : Token) : Bool :=
  match t.kind with
  | .atom _ | .closing => true
  | _ => false

def startsOperand (t : Token) : Bool :=
  match t.kind with
  | .atom _ | .opening | .operator .not => true
  | _ => false

/-- Puts the implicit conjunction in front of each operand that follows an operand. -/
def joinAdjacent : List Token → List Token
  | a :: b :: rest =>
    if a.endsOperand && b.startsOperand then
      a :: ⟨.operator .implicitAnd, b.position⟩ :: joinAdjacent (b :: rest)
    else a :: joinAdjacent (b :: rest)
  | short => short

/-- The tokens of a rule. -/
def ofText (source : String) : Except Fault (List Token) :=
  (explicit source (Lexeme.ofText source)).map joinAdjacent

end Token
end ShotTally.Rule
