/-
The grammar of rules, said without the compiler: how a text falls into words and marks, which
words and marks make up a rule, and the tree that a rule stands for. A tree is flattened to the
list of its conditions from left to right and to its post-order, in which the conditions are
numbered in that order.
-/
import ShotTally.Rule.Predicate

namespace ShotTally.Rule

open Text

/-! ## Words and marks -/

/-- The characters that are words of their own. -/
def marks : List Char := ['&', '|', '^', '~', '(', ')', ':', ';', '<', '>', '=']

/-- A word or a mark, wherever it stands. -/
inductive Sign where
  | word (text : List Char)
  | mark (symbol : Char)
  deriving DecidableEq

/-- Whether a character belongs to words. -/
def WordChar (c : Char) : Prop := isBlank c = false ∧ c ∉ marks

/-- A text falls into signs: words are not empty and as long as they can be, blanks count for
nothing. -/
inductive Reads : List Char → List Sign → Prop where
  | nil : Reads [] []
  | blank {c cs l} (h : isBlank c = true) (r : Reads cs l) : Reads (c :: cs) l
  | mark {c cs l} (h : c ∈ marks) (r : Reads cs l) : Reads (c :: cs) (.mark c :: l)
  | word {w cs l} (ne : w ≠ []) (all : ∀ c ∈ w, WordChar c) (max : ∀ c ∈ cs.head?, ¬ WordChar c)
      (r : Reads cs l) : Reads (w ++ cs) (.word w :: l)

/-- A text of blanks. -/
def Blank (source : String) : Prop := ∀ c ∈ source.toList, isBlank c = true

instance (source : String) : Decidable (Blank source) :=
  decidable_of_iff (source.toList.all isBlank = true) List.all_eq_true

/-! ## Trees -/

/-- What a rule says: conditions, negations, and two parts joined by an operator. -/
inductive Tree where
  | atom (a : Atom)
  | not (t : Tree)
  | binary (op : Operator) (left right : Tree)

namespace Tree

/-- The conditions from left to right. -/
def leaves : Tree → List Atom
  | atom a => [a]
  | not t => t.leaves
  | binary _ l r => l.leaves ++ r.leaves

/-- The post-order of a tree whose first condition has the given number. -/
def postOrder : (first : Nat) → Tree → List Step
  | n, atom _ => [.atom n]
  | n, not t => t.postOrder n ++ [.apply .not]
  | n, binary op l r => l.postOrder n ++ r.postOrder (n + l.leaves.length) ++ [.apply op]

end Tree

/-! ## Derivations -/

/-- The kinds of phrases, the tightest first. -/
inductive Phrase where
  | primary
  | unary
  | conj
  | alt
  | seq
  deriving DecidableEq

/-- Where a phrase stands: outside groups of options, or inside the group of a keyword. -/
inductive Scope where
  | outer
  | options (keyword : List Char) (comparison : Comparison)

/-- Whether a word is an operand of a comparison; comparing as numbers needs a number. -/
def Operand (comparison : Comparison) (w : List Char) : Prop :=
  comparison = .textEqual ∨ (Double.parse? w).isSome = true

/-- The condition of a keyword, a comparison and an operand. -/
def condition (keyword : List Char) (comparison : Comparison) (operand : List Char) : Tree :=
  .atom ⟨.ofList keyword, comparison, .ofList operand, Double.parse? operand⟩

/-- The marks between alternatives. -/
def alternative : List (Char × Operator) := [('|', .or), ('^', .xor)]

/-- The signs of a phrase and its tree. -/
inductive Derives : Scope → Phrase → List Sign → Tree → Prop where
  | condition {k c cmp w} (hc : Comparison.ofSymbol? c = some cmp) (hw : Operand cmp w) :
      Derives .outer .primary [.word k, .mark c, .word w] (condition k cmp w)
  | group {k c cmp l t} (hc : Comparison.ofSymbol? c = some cmp)
      (h : Derives (.options k cmp) .seq l t) :
      Derives .outer .primary (.word k :: .mark c :: .mark '(' :: (l ++ [.mark ')'])) t
  | option {k cmp w} (hw : Operand cmp w) :
      Derives (.options k cmp) .primary [.word w] (Rule.condition k cmp w)
  | parens {s l t} (h : Derives s .seq l t) :
      Derives s .primary (.mark '(' :: (l ++ [.mark ')'])) t
  | primary {s l t} (h : Derives s .primary l t) : Derives s .unary l t
  | not {s l t} (h : Derives s .unary l t) : Derives s .unary (.mark '~' :: l) (.not t)
  | unary {s l t} (h : Derives s .unary l t) : Derives s .conj l t
  | and {s l m t u} (hl : Derives s .conj l t) (hr : Derives s .unary m u) :
      Derives s .conj (l ++ .mark '&' :: m) (.binary .and t u)
  | conj {s l t} (h : Derives s .conj l t) : Derives s .alt l t
  | alternative {s c op l m t u} (ho : (c, op) ∈ alternative) (hl : Derives s .alt l t)
      (hr : Derives s .conj m u) : Derives s .alt (l ++ .mark c :: m) (.binary op t u)
  | alt {s l t} (h : Derives s .alt l t) : Derives s .seq l t
  | adjacent {s l m t u} (hl : Derives s .seq l t) (hr : Derives s .alt m u) :
      Derives s .seq (l ++ m) (.binary .implicitAnd t u)

/-- A text is a rule with the given tree. -/
def IsRule (source : String) (t : Tree) : Prop :=
  ∃ l, Reads source.toList l ∧ Derives .outer .seq l t

end ShotTally.Rule
