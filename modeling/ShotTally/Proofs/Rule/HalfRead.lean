/-
Rules half read. In front of a machine that has read part of a rule stands, for every parenthesis
still open and for the rule itself, a phrase begun: left operands whose operators wait, then either
nothing yet or one complete operand. Every token that the machine accepts goes on with such a
state, so that a machine that ends well has read a rule and put out the post-order of its tree.
-/
import ShotTally.Proofs.Rule.Expansion

namespace ShotTally.Rule

open Predicate

/-! ## Phrases begun -/

/-- An operator that waits, with its left operand unless it is a negation. -/
structure Hung where
  op : Operator
  left : Option Tree

namespace Hung

/-- The conditions of the left operands, the latest operator first. -/
def leaves : List Hung → List Atom
  | [] => []
  | h :: hs => leaves hs ++ (h.left.map Tree.leaves).getD []

/-- What the left operands have put out. -/
def steps (n : Nat) : List Hung → List Step
  | [] => []
  | h :: hs => steps n hs ++ (h.left.map (Tree.postOrder (n + (leaves hs).length))).getD []

/-- The operators as they wait. -/
def waiting (hs : List Hung) : List Waiting := (hs.map Hung.op).map .operator

end Hung

/-- A phrase begun: after these signs, with these operators hung up, a phrase of the given kind
completes a sequence. -/
inductive Begun (s : Scope) : Phrase → List Sign → List Hung → Prop where
  | seq : Begun s .seq [] []
  | alt {l hs} (b : Begun s .seq l hs) : Begun s .alt l hs
  | adjacent {l t} (d : Derives s .seq l t) : Begun s .alt l [⟨.implicitAnd, some t⟩]
  | conj {l hs} (b : Begun s .alt l hs) : Begun s .conj l hs
  | alternative {l hs m t c op} (ho : (c, op) ∈ Rule.alternative) (b : Begun s .alt l hs)
      (d : Derives s .alt m t) : Begun s .conj (l ++ m ++ [.mark c]) (⟨op, some t⟩ :: hs)
  | unary {l hs} (b : Begun s .conj l hs) : Begun s .unary l hs
  | and {l hs m t} (b : Begun s .conj l hs) (d : Derives s .conj m t) :
      Begun s .unary (l ++ m ++ [.mark '&']) (⟨.and, some t⟩ :: hs)
  | not {l hs} (b : Begun s .unary l hs) : Begun s .unary (l ++ [.mark '~']) (⟨.not, none⟩ :: hs)

theorem Begun.eq_nil {s : Scope} {l : List Sign} {hs : List Hung} (b : Begun s .seq l hs) : l = [] ∧ hs = [] := by
  cases b; exact ⟨rfl, rfl⟩

theorem Begun.eq_of_alt {s : Scope} {l : List Sign} {hs : List Hung} (b : Begun s .alt l hs) :
    hs = [] ∨ ∃ t, hs = [⟨.implicitAnd, some t⟩] := by
  cases b with
  | alt b => exact .inl b.eq_nil.2
  | adjacent d => exact .inr ⟨_, rfl⟩

theorem Begun.head_of_conj {s : Scope} {l : List Sign} {hs : List Hung} (b : Begun s .conj l hs) :
    ∀ h ∈ hs.head?, h.op ∈ [Operator.or, .xor, .implicitAnd] := by
  cases b with
  | conj b => rcases b.eq_of_alt with rfl | ⟨t, rfl⟩ <;> simp
  | alternative ho b d => rcases alternative_cases ho with ⟨rfl, rfl⟩ | ⟨rfl, rfl⟩ <;> simp

/-! ## Completing operands -/

/-- A phrase begun with a last operand, and the same signs with some operators released: they have
completed the operand to a larger one. -/
structure Completes (s : Scope) (ph : Phrase) (l m : List Sign) (hs : List Hung) (t : Tree)
    (out left : List Hung) (l' m' : List Sign) (t' : Tree) : Prop where
  split : hs = out ++ left
  begun : Begun s ph l' left
  signs : l ++ m = l' ++ m'
  derives : Derives s ph m' t'
  leaves : Hung.leaves hs ++ t.leaves = Hung.leaves left ++ t'.leaves
  steps : ∀ n, Hung.steps n hs ++ t.postOrder (n + (Hung.leaves hs).length) ++ out.map (fun h => .apply h.op) =
    Hung.steps n left ++ t'.postOrder (n + (Hung.leaves left).length)
  own : ∀ h ∈ out, h.op ∈ ph.own

namespace Completes

variable {s : Scope} {ph ph' : Phrase} {l m l₁ m₁ l₂ m₂ : List Sign} {hs out left out₁ left₁ : List Hung}
  {t t₁ t₂ : Tree}

/-- Nothing needs to be released. -/
theorem refl (b : Begun s ph l hs) (d : Derives s ph m t) : Completes s ph l m hs t [] hs l m t :=
  ⟨rfl, b, rfl, d, rfl, by simp, by simp⟩

theorem trans (h : Completes s ph l m hs t out left l₁ m₁ t₁)
    (h' : Completes s ph' l₁ m₁ left t₁ out₁ left₁ l₂ m₂ t₂) (ho : ph.own ⊆ ph'.own) :
    Completes s ph' l m hs t (out ++ out₁) left₁ l₂ m₂ t₂ where
  split := by rw [h.split, h'.split, List.append_assoc]
  begun := h'.begun
  signs := h.signs.trans h'.signs
  derives := h'.derives
  leaves := h.leaves.trans h'.leaves
  steps n := by rw [List.map_append, ← List.append_assoc, h.steps, h'.steps]
  own x hx := (List.mem_append.1 hx).elim (fun hx => ho (h.own x hx)) (h'.own x)

/-- One binary operator is released. -/
theorem single {op : Operator} {u : Tree} {v w : List Sign} (b : Begun s ph l hs)
    (d : Derives s ph (v ++ w ++ m) (.binary op u t)) (ho : op ∈ ph.own) :
    Completes s ph (l ++ v ++ w) m (⟨op, some u⟩ :: hs) t [⟨op, some u⟩] hs l (v ++ w ++ m) (.binary op u t) :=
  ⟨rfl, b, by simp, d, by simp [Hung.leaves], fun n => by simp [Hung.steps, Hung.leaves, Nat.add_assoc],
    by simpa using ho⟩

end Completes

section

variable {s : Scope} {l : List Sign} {hs : List Hung}

/-- The operand of negations or a conjunction grows to a conjunction. -/
theorem Begun.complete_conj (b : Begun s .unary l hs) : ∀ {m : List Sign} {t : Tree}, Derives s .unary m t →
    ∃ out left l' m' t', Completes s .conj l m hs t out left l' m' t' := by
  generalize hp : Phrase.unary = ph at b
  induction b with
  | seq | alt | adjacent | conj | alternative => cases hp
  | unary b => exact fun d => ⟨[], _, _, _, _, .refl b (.unary d)⟩
  | and b dl => exact fun d => ⟨_, _, _, _, _, .single b (by simpa using Derives.and dl d) (by decide)⟩
  | not b ih =>
    intro m t d
    obtain ⟨out, left, l', m', t', h⟩ := ih rfl (.not d)
    refine ⟨⟨.not, none⟩ :: out, left, l', m', t', by rw [h.split]; rfl, h.begun, ?_, h.derives, ?_, ?_, ?_⟩
    · simpa using h.signs
    · simpa [Hung.leaves] using h.leaves
    · intro n
      rw [← h.steps n]
      simp [Hung.steps, Hung.leaves]
    · simpa [Phrase.own] using h.own

/-- It grows to a chain of alternatives. -/
theorem Begun.complete_alt (b : Begun s .unary l hs) {m : List Sign} {t : Tree} (d : Derives s .unary m t) :
    ∃ out left l' m' t', Completes s .alt l m hs t out left l' m' t' := by
  obtain ⟨out, left, l', m', t', h⟩ := b.complete_conj d
  have hd := h.derives
  cases h.begun with
  | conj b => exact ⟨_, _, _, _, _, h.trans (.refl b (.conj hd)) (by decide)⟩
  | alternative ho b dl =>
    refine ⟨_, _, _, _, _, h.trans (.single b (by simpa using Derives.alternative ho dl hd) ?_) (by decide)⟩
    rcases alternative_cases ho with ⟨-, rfl⟩ | ⟨-, rfl⟩ <;> decide

/-- It grows to the whole sequence. -/
theorem Begun.complete_seq (b : Begun s .unary l hs) {m : List Sign} {t : Tree} (d : Derives s .unary m t) :
    ∃ t', Completes s .seq l m hs t hs [] [] (l ++ m) t' := by
  obtain ⟨out, left, l', m', t', h⟩ := b.complete_alt d
  have hd := h.derives
  obtain ⟨out, left, l', m', t', h⟩ : ∃ out left l' m' t', Completes s .seq l m hs t out left l' m' t' := by
    cases h.begun with
    | alt b => exact ⟨_, _, _, _, _, h.trans (.refl b (.alt hd)) (by decide)⟩
    | adjacent dl =>
      have hs := Completes.single (v := l') (w := []) .seq (by simpa using Derives.adjacent dl hd) (by decide)
      exact ⟨_, _, _, _, _, h.trans (by simpa using hs) (by decide)⟩
  obtain ⟨rfl, rfl⟩ := h.begun.eq_nil
  obtain rfl : hs = out := by simpa using h.split
  have hs' := h.signs
  rw [List.nil_append] at hs'
  subst hs'
  exact ⟨t', h⟩

end

end ShotTally.Rule
