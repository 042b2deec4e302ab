/-
The tokens of a phrase. Every phrase of the grammar expands to tokens of its own, whatever follows
it, and these tokens make the machine add the tree of the phrase.
-/
import ShotTally.Proofs.Rule.Postfix
import ShotTally.Proofs.Rule.Reading

namespace ShotTally.Rule

open Predicate

/-- A condition is made exactly when its operand is one. -/
theorem make_eq_ok_iff {source : String} {k w : List Char} {cmp : Comparison} {pos : Nat} {a : Atom} :
    Atom.make source k cmp w pos = .ok a ↔ Operand cmp w ∧ condition k cmp w = .atom a := by
  unfold Atom.make Operand condition
  cases cmp <;> cases Double.parse? w <;> simp [Comparison.isNumeric]

/-! ## Where the reader of lexemes stands -/

/-- Outside groups of options, or inside one. -/
inductive Mode where
  | outer
  | inside (keyword : List Char) (comparison : Comparison) (opened inner : Nat) (seen : Bool)

namespace Mode

def scope : Mode → Scope
  | outer => .outer
  | inside k cmp _ _ _ => .options k cmp

/-- After a parenthesis was opened. -/
def enter : Mode → Mode
  | outer => outer
  | inside k cmp opened inner seen => inside k cmp opened (inner + 1) seen

/-- After an operand. -/
def filled : Mode → Mode
  | outer => outer
  | inside k cmp opened inner _ => inside k cmp opened inner true

@[simp] theorem filled_inside (k : List Char) (cmp : Comparison) (opened inner : Nat) (seen : Bool) :
    (inside k cmp opened inner seen).filled = inside k cmp opened inner true := rfl

@[simp] theorem scope_enter (m : Mode) : m.enter.scope = m.scope := by cases m <;> rfl

@[simp] theorem scope_filled (m : Mode) : m.filled.scope = m.scope := by cases m <;> rfl

@[simp] theorem filled_filled (m : Mode) : m.filled.filled = m.filled := by cases m <;> rfl

@[simp] theorem filled_enter (m : Mode) : m.enter.filled = m.filled.enter := by cases m <;> rfl

end Mode

/-- The tokens of lexemes read from a given standing. -/
def tokensIn (source : String) : Mode → List Lexeme → Except Fault (List Token)
  | .outer, ls => Token.explicit source ls
  | .inside k cmp opened inner seen, ls => Token.options source k cmp opened inner seen ls

section

variable {source : String} {m : Mode} {c : Char} {p : Nat} {ls : List Lexeme}

theorem tokensIn_operator {op : Operator} (h : Operator.ofSymbol? c = some op) :
    tokensIn source m (.mark c p :: ls) = (tokensIn source m ls).map (⟨.operator op, p⟩ :: ·) := by
  cases m <;> simp only [tokensIn, Token.explicit, Token.options, h] <;> rw [← functor_map_eq] <;> rfl

theorem tokensIn_opening :
    tokensIn source m (.mark '(' p :: ls) = (tokensIn source m.enter ls).map (⟨.opening, p⟩ :: ·) := by
  cases m <;> simp only [tokensIn, Mode.enter, Token.explicit, Token.options, Operator.ofSymbol?, if_true] <;>
    rw [← functor_map_eq] <;> rfl

theorem tokensIn_closing :
    tokensIn source m.enter (.mark ')' p :: ls) = (tokensIn source m ls).map (⟨.closing, p⟩ :: ·) := by
  cases m <;> simp only [tokensIn, Mode.enter, Token.explicit, Token.options, Operator.ofSymbol?] <;>
    rw [← functor_map_eq] <;> rfl

theorem tokensIn_condition {k w : List Char} {cmp : Comparison} {q r : Nat} {a : Atom}
    (hc : Comparison.ofSymbol? c = some cmp) (ha : Atom.make source k cmp w r = .ok a) :
    tokensIn source .outer (.word k p :: .mark c q :: .word w r :: ls) =
      (tokensIn source .outer ls).map (⟨.atom a, p⟩ :: ·) := by
  simp only [tokensIn, Token.explicit, hc, ha]
  rw [← functor_map_eq]; rfl

theorem tokensIn_option {k w : List Char} {cmp : Comparison} {opened inner : Nat} {seen : Bool} {a : Atom}
    (ha : Atom.make source k cmp w p = .ok a) :
    tokensIn source (.inside k cmp opened inner seen) (.word w p :: ls) =
      (tokensIn source (.inside k cmp opened inner true) ls).map (⟨.atom a, p⟩ :: ·) := by
  simp only [tokensIn, Token.options, ha]
  rw [← functor_map_eq]; rfl

theorem tokensIn_group {k : List Char} {cmp : Comparison} {q r : Nat} (hc : Comparison.ofSymbol? c = some cmp) :
    tokensIn source .outer (.word k p :: .mark c q :: .mark '(' r :: ls) =
      (tokensIn source (.inside k cmp r 0 false) ls).map (⟨.opening, r⟩ :: ·) := by
  simp only [tokensIn, Token.explicit, hc]
  rw [← functor_map_eq]; rfl

theorem tokensIn_groupEnd {k : List Char} {cmp : Comparison} {opened : Nat} :
    tokensIn source (.inside k cmp opened 0 true) (.mark ')' p :: ls) =
      (tokensIn source .outer ls).map (⟨.closing, p⟩ :: ·) := by
  simp only [tokensIn, Token.options, Operator.ofSymbol?]
  rw [← functor_map_eq]; rfl

end

/-! ## From derivations to tokens -/

/-- Lexemes that expand to tokens of their own, whatever follows. -/
def Expands (source : String) (s : Scope) (ls : List Lexeme) (toks : List Token) : Prop :=
  ∀ m : Mode, m.scope = s → ∀ rest,
    tokensIn source m (ls ++ rest) = (tokensIn source m.filled rest).map (toks ++ ·)

theorem map_map_append (x : Except Fault (List Token)) (f g : List Token → List Token) :
    (x.map f).map g = x.map fun ts => g (f ts) := by cases x <;> rfl

theorem expands_append {source : String} {s : Scope} {l m : List Lexeme} {ts us : List Token}
    (hl : Expands source s l ts) (hm : Expands source s m us) : Expands source s (l ++ m) (ts ++ us) := by
  intro mode hs rest
  rw [List.append_assoc, hl mode hs, hm mode.filled (by simpa using hs), map_map_append]
  simp

theorem expands_operator {source : String} {s : Scope} {l m : List Lexeme} {ts us : List Token} {c : Char}
    {op : Operator} (hc : Operator.ofSymbol? c = some op) (p : Nat) (hl : Expands source s l ts)
    (hm : Expands source s m us) :
    Expands source s (l ++ .mark c p :: m) (ts ++ ⟨.operator op, p⟩ :: us) := by
  intro mode hs rest
  rw [List.append_assoc, hl mode hs, List.cons_append, tokensIn_operator hc,
    hm mode.filled (by simpa using hs), map_map_append, map_map_append]
  simp

theorem sign_eq_mark {x : Lexeme} {c : Char} (h : x.sign = .mark c) : ∃ p, x = .mark c p := by
  cases x <;> cases h; exact ⟨_, rfl⟩

theorem sign_eq_word {x : Lexeme} {w : List Char} (h : x.sign = .word w) : ∃ p, x = .word w p := by
  cases x <;> cases h; exact ⟨_, rfl⟩

theorem signs_cons_mark {ls : List Lexeme} {c : Char} {l : List Sign} (h : ls.map Lexeme.sign = .mark c :: l) :
    ∃ p m, ls = .mark c p :: m ∧ m.map Lexeme.sign = l := by
  obtain ⟨x, m, rfl, hx, rfl⟩ := List.map_eq_cons_iff.1 h
  obtain ⟨p, rfl⟩ := sign_eq_mark hx
  exact ⟨p, m, rfl, rfl⟩

theorem signs_cons_word {ls : List Lexeme} {w : List Char} {l : List Sign} (h : ls.map Lexeme.sign = .word w :: l) :
    ∃ p m, ls = .word w p :: m ∧ m.map Lexeme.sign = l := by
  obtain ⟨x, m, rfl, hx, rfl⟩ := List.map_eq_cons_iff.1 h
  obtain ⟨p, rfl⟩ := sign_eq_word hx
  exact ⟨p, m, rfl, rfl⟩

theorem alternative_cases {c : Char} {op : Operator} (h : (c, op) ∈ alternative) :
    (c = '|' ∧ op = .or) ∨ (c = '^' ∧ op = .xor) := by
  simpa [alternative] using h

/-- Lexemes with these signs expand to tokens that feed the tree to the machine. -/
def Tokenizes (source : String) (s : Scope) (ph : Phrase) (l : List Sign) (t : Tree) : Prop :=
  ∀ ls : List Lexeme, ls.map Lexeme.sign = l → ∃ toks, Expands source s ls toks ∧ Feeds source ph toks t

namespace Tokenizes

variable {source : String} {s : Scope} {ph phl phr : Phrase} {l m : List Sign} {t u : Tree} {k w : List Char} {c : Char}
  {cmp : Comparison}

theorem condition (hc : Comparison.ofSymbol? c = some cmp) (hw : Operand cmp w) :
    Tokenizes source .outer .primary [.word k, .mark c, .word w] (Rule.condition k cmp w) := by
  intro ls h
  obtain ⟨p, ls, rfl, h1⟩ := signs_cons_word h
  obtain ⟨q, ls, rfl, h2⟩ := signs_cons_mark h1
  obtain ⟨r, ls, rfl, h3⟩ := signs_cons_word h2
  obtain rfl := List.map_eq_nil_iff.1 h3
  refine ⟨_, fun m hm rest => ?_, .atom _ p⟩
  cases m with
  | outer => exact tokensIn_condition hc (make_eq_ok_iff.2 ⟨hw, rfl⟩)
  | inside => cases hm

/-- The parentheses of a group feed its tree like those around a phrase. -/
theorem group (hc : Comparison.ofSymbol? c = some cmp) (h : Tokenizes source (.options k cmp) .seq l t) :
    Tokenizes source .outer .primary (.word k :: .mark c :: .mark '(' :: (l ++ [.mark ')'])) t := by
  intro ls hsigns
  obtain ⟨p, ls, rfl, h1⟩ := signs_cons_word hsigns
  obtain ⟨q, ls, rfl, h2⟩ := signs_cons_mark h1
  obtain ⟨r, ls, rfl, h3⟩ := signs_cons_mark h2
  obtain ⟨ls, e, rfl, hls, h4⟩ := List.map_eq_append_iff.1 h3
  obtain ⟨r', e, rfl, h5⟩ := signs_cons_mark h4
  obtain rfl := List.map_eq_nil_iff.1 h5
  obtain ⟨toks, hx, hf⟩ := h ls hls
  refine ⟨_, fun m hm rest => ?_, hf.parens r r'⟩
  cases m with
  | outer =>
    rw [List.cons_append, List.cons_append, List.cons_append, tokensIn_group hc, List.append_assoc,
      hx _ rfl, Mode.filled_inside, List.singleton_append, tokensIn_groupEnd, map_map_append, map_map_append]
    simp [Mode.filled]
  | inside => cases hm

theorem option (hw : Operand cmp w) :
    Tokenizes source (.options k cmp) .primary [.word w] (Rule.condition k cmp w) := by
  intro ls h
  obtain ⟨p, ls, rfl, h1⟩ := signs_cons_word h
  obtain rfl := List.map_eq_nil_iff.1 h1
  refine ⟨_, fun m hm rest => ?_, .atom _ p⟩
  cases m with
  | outer => cases hm
  | inside =>
    cases hm
    exact tokensIn_option (make_eq_ok_iff.2 ⟨hw, rfl⟩)

theorem parens (h : Tokenizes source s .seq l t) : Tokenizes source s .primary (.mark '(' :: (l ++ [.mark ')'])) t := by
  intro ls hsigns
  obtain ⟨p, ls, rfl, h1⟩ := signs_cons_mark hsigns
  obtain ⟨ls, e, rfl, hls, h2⟩ := List.map_eq_append_iff.1 h1
  obtain ⟨p', e, rfl, h3⟩ := signs_cons_mark h2
  obtain rfl := List.map_eq_nil_iff.1 h3
  obtain ⟨toks, hx, hf⟩ := h ls hls
  refine ⟨_, fun m hm rest => ?_, hf.parens p p'⟩
  rw [List.cons_append, tokensIn_opening, List.append_assoc, hx m.enter (by simpa using hm), Mode.filled_enter,
    List.singleton_append, tokensIn_closing, map_map_append, map_map_append]
  simp

theorem not (h : Tokenizes source s .unary l t) : Tokenizes source s .unary (.mark '~' :: l) t.not := by
  intro ls hsigns
  obtain ⟨p, ls, rfl, hls⟩ := signs_cons_mark hsigns
  obtain ⟨toks, hx, hf⟩ := h ls hls
  refine ⟨_, fun m hm rest => ?_, hf.not p⟩
  rw [List.cons_append, tokensIn_operator (show Operator.ofSymbol? '~' = some .not from rfl), hx m hm, map_map_append]
  simp

/-- A phrase read as one that binds less. -/
theorem weaken (h : Tokenizes source s phl l t) (ho : phl.own ⊆ ph.own) (hj : phl.joins ⊆ ph.joins) :
    Tokenizes source s ph l t := by
  intro ls hls
  obtain ⟨toks, hx, hf⟩ := h ls hls
  exact ⟨toks, hx, hf.weaken ho hj⟩

/-- Two phrases with a mark between them; what the operator needs is that of `Feeds.binary`. -/
theorem binary (hl : Tokenizes source s phl l t) (hr : Tokenizes source s phr m u) {op : Operator}
    (hc : Operator.ofSymbol? c = some op) (hop : op ≠ .not) (hy : ∀ w ∈ phl.own, Progress.yieldsTo w op = true)
    (hj : op ∈ ph.joins) (hs : phl.joins ⊆ ph.joins) (hk : ∀ o ∈ phr.joins, Progress.yieldsTo op o = false)
    (ho : op ∈ ph.own) (hw : phr.own ⊆ ph.own) : Tokenizes source s ph (l ++ .mark c :: m) (.binary op t u) := by
  intro ls hsigns
  obtain ⟨ls, e, rfl, hls, he⟩ := List.map_eq_append_iff.1 hsigns
  obtain ⟨p, ms, rfl, hms⟩ := signs_cons_mark he
  obtain ⟨ts, hx, hf⟩ := hl ls hls
  obtain ⟨us, hy', hg⟩ := hr ms hms
  exact ⟨_, expands_operator hc p hx hy', hf.binary hg hop p hy hj hs hk ho hw⟩

theorem adjacent (hl : Tokenizes source s .seq l t) (hr : Tokenizes source s .alt m u) :
    Tokenizes source s .seq (l ++ m) (.binary .implicitAnd t u) := by
  intro ls hsigns
  obtain ⟨ls, ms, rfl, hls, hms⟩ := List.map_eq_append_iff.1 hsigns
  obtain ⟨ts, hx, hf⟩ := hl ls hls
  obtain ⟨us, hy, hg⟩ := hr ms hms
  exact ⟨_, expands_append hx hy, hf.adjacent hg⟩

end Tokenizes

/-- A phrase expands to tokens that feed its tree to the machine. -/
theorem Derives.tokens {s : Scope} {ph : Phrase} {l : List Sign} {t : Tree} (source : String)
    (h : Derives s ph l t) : Tokenizes source s ph l t := by
  induction h with
  | condition hc hw => exact .condition hc hw
  | group hc _ ih => exact .group hc ih
  | option hw => exact .option hw
  | parens _ ih => exact .parens ih
  | primary _ ih => exact ih.weaken (by decide) (by decide)
  | not _ ih => exact .not ih
  | unary _ ih => exact ih.weaken (by decide) (by decide)
  | and _ _ ihl ihr =>
    exact ihl.binary ihr rfl (by decide) (by decide) (by decide) (by decide) (by decide) (by decide) (by decide)
  | conj _ ih => exact ih.weaken (by decide) (by decide)
  | alternative ho _ _ ihl ihr =>
    -- the two marks are of equal strength and need the same facts
    rcases alternative_cases ho with ⟨rfl, rfl⟩ | ⟨rfl, rfl⟩ <;>
      exact ihl.binary ihr rfl (by decide) (by decide) (by decide) (by decide) (by decide) (by decide) (by decide)
  | alt _ ih => exact ih.weaken (by decide) (by decide)
  | adjacent _ _ ihl ihr => exact .adjacent ihl ihr

end ShotTally.Rule
