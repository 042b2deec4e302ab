/-
Rule text cut into words and marks. Blanks separate words and are otherwise dropped; every
lexeme knows the byte at which it starts.
-/
import ShotTally.Text.Blank
import ShotTally.Rule.Operator

namespace ShotTally.Rule

/-- A maximal run of word characters, or one of the marks `& | ^ ~ ( ) : ; < > =`. -/
inductive Lexeme where
  | word (text : List Char) (position : Nat)
  | mark (symbol : Char) (position : Nat)
  deriving DecidableEq, Repr

namespace Lexeme

def isMark (c : Char) : Bool :=
  (Operator.ofSymbol? c).isSome || (Comparison.ofSymbol? c).isSome || c == '(' || c == ')'

def isWordChar (c : Char) : Bool := !Text.isBlank c && !isMark c

def position : Lexeme → Nat
  | .word _ p | .mark _ p => p

/-- The character at which a lexeme starts. -/
def initial : Lexeme → String
  | .word text _ => String.ofList (text.take 1)
  | .mark symbol _ => String.singleton symbol

/-- Lexemes of a text whose first byte has the given position. A word character in front of a
word character belongs to the same word. -/
def scan : Nat → List Char → List Lexeme
  | _, [] => []
  | p, c :: cs =>
    let rest := scan (p + c.utf8Size) cs
    if Text.isBlank c then rest
    else if isMark c then .mark c p :: rest
    else if (cs.head?.map isWordChar).getD false then
      match rest with
      | .word text _ :: more => .word (c :: text) p :: more
      | other => .word [c] p :: other
    else .word [c] p :: rest

def ofText (source : String) : List Lexeme := scan 0 source.toList

end Lexeme
end ShotTally.Rule
