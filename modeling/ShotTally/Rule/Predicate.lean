/-
Rules in postfix order. Operators wait on a stack until their operands are complete, which each
later operator of lower or equal strength, a closing parenthesis or the end of the rule decides.
-/
import ShotTally.Rule.Token

namespace ShotTally.Rule

/-- One step of a postfix program. -/
inductive Step where
  /-- The condition at this place of the list of conditions. -/
  | atom (index : Nat)
  | apply (op : Operator)
  deriving DecidableEq, Repr

/-- A rule ready to be evaluated. Without steps it selects every shot. -/
structure Predicate where
  source : String
  atoms : List Atom
  steps : List Step
  deriving DecidableEq

namespace Predicate

/-- An operator or an opening parenthesis that waits. -/
inductive Waiting where
  | opening (position : Nat)
  | operator (op : Operator)
  deriving DecidableEq

/-- A rule half read: the part in postfix order, and what waits, latest first. -/
structure Progress where
  atoms : List Atom
  steps : List Step
  waiting : List Waiting
  /-- Whether the next token has to start an operand. -/
  expects : Bool

namespace Progress

def start : Progress := ⟨[], [], [], true⟩

/-- Whether a waiting operator is complete once the given binary operator is read. -/
def yieldsTo (waiting op : Operator) : Bool :=
  waiting == .not || decide (op.precedence ≤ waiting.precedence)

/-- Takes out the waiting operators that the given one completes. -/
def release (op : Operator) : List Waiting → List Step × List Waiting
  | .operator w :: rest =>
    if yieldsTo w op then
      let (out, left) := release op rest
      (.apply w :: out, left)
    else ([], .operator w :: rest)
  | other => ([], other)

/-- Takes out the operators back to the latest opening parenthesis, and that parenthesis. -/
def close : List Waiting → Option (List Step × List Waiting)
  | [] => none
  | .opening _ :: rest => some ([], rest)
  | .operator w :: rest => (close rest).map fun (out, left) => (.apply w :: out, left)

/-- Reads one token. -/
def read (source : String) (p : Progress) (t : Token) : Except Fault Progress :=
  match t.kind with
  | .atom a =>
    .ok { p with
      atoms := p.atoms ++ [a], steps := p.steps ++ [.atom p.atoms.length], expects := false }
  | .opening => .ok { p with waiting := .opening t.position :: p.waiting, expects := true }
  | .closing =>
    if p.expects then .error ⟨.missingBeforeClosing, source, t.text, t.position⟩
    else match close p.waiting with
      | none => .error ⟨.unmatchedClosing, source, t.text, t.position⟩
      | some (out, left) => .ok { p with steps := p.steps ++ out, waiting := left }
  | .operator .not => .ok { p with waiting := .operator .not :: p.waiting, expects := true }
  | .operator op =>
    if p.expects then .error ⟨.missingLeftOperand, source, t.text, t.position⟩
    else
      let (out, left) := release op p.waiting
      .ok { p with steps := p.steps ++ out, waiting := .operator op :: left, expects := true }

/-- Takes out everything that waits; a parenthesis among it was never closed. -/
def finish (source : String) : List Waiting → Except Fault (List Step)
  | [] => .ok []
  | .operator w :: rest => do return .apply w :: (← finish source rest)
  | .opening p :: _ => .error ⟨.neverClosed, source, "(", p⟩

end Progress

/-- Brings tokens into postfix order. -/
def ofTokens (source : String) (tokens : List Token) : Except Fault Predicate := do
  let p ← tokens.foldlM (Progress.read source) .start
  match tokens.getLast? with
  | some last =>
    if p.expects then throw ⟨.endsWithoutOperand, source, last.text, last.position⟩
  | none => pure ()
  let out ← Progress.finish source p.waiting
  return ⟨source, p.atoms, p.steps ++ out⟩

/-- Compiles a rule. An absent rule is an empty one, and an empty one selects every shot. -/
def compile (rule : Option String) : Except Fault Predicate := do
  let source := rule.getD ""
  ofTokens source (← Token.ofText source)

/-- Compiles rules up to the first that is faulty. -/
def compileAll (rules : List (Option String)) : Outcome (List Predicate) :=
  rules.mapM fun rule => (compile rule).mapError Fault.failure

/-- The rule that selects every shot. -/
def always : Predicate := ⟨"", [], []⟩

def isTrivial (p : Predicate) : Bool := p.steps.isEmpty

/-- The keywords in order of first appearance. -/
def keywords (p : Predicate) : List String := (p.atoms.map (·.keyword)).eraseDups

/-- The program as text, conditions and operators apart by blanks. -/
def text (p : Predicate) : String :=
  if p.isTrivial then "true"
  else " ".intercalate (p.steps.map fun
    | .atom i => (p.atoms[i]?.map Atom.text).getD ""
    | .apply op => op.symbol)

end Predicate
end ShotTally.Rule
