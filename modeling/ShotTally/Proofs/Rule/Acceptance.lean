/-
The compiler of rules accepts exactly the grammar: compiling a text succeeds when the text is blank
or a rule, and then gives the conditions of its tree and the post-order of the tree. One half feeds
the tokens of a derivation to the machine; the other follows the machine token by token with the
rule half read in front of it.
-/
import ShotTally.Proofs.Rule.HalfRead

namespace ShotTally.Rule

open Predicate

/-! ## Open parentheses -/

/-- The parentheses still open, with the phrases begun in front of them: the signs read, what waits,
and the conditions and steps put out. The number counts the parentheses inside the innermost group of
options, or all of them outside groups. -/
inductive Stack : Scope → Nat → List Sign → List Waiting → List Atom → List Step → Prop where
  | base : Stack .outer 0 [] [] [] []
  | parens {s n l ws as ss v hs} (p : Nat) (st : Stack s n l ws as ss) (b : Begun s .unary v hs) :
      Stack s (n + 1) (l ++ v ++ [.mark '(']) (.opening p :: (Hung.waiting hs ++ ws)) (as ++ Hung.leaves hs)
        (ss ++ Hung.steps as.length hs)
  | group {n l ws as ss v hs k c cmp} (p : Nat) (hc : Comparison.ofSymbol? c = some cmp)
      (st : Stack .outer n l ws as ss) (b : Begun .outer .unary v hs) :
      Stack (.options k cmp) 0 (l ++ v ++ [.word k, .mark c, .mark '(']) (.opening p :: (Hung.waiting hs ++ ws))
        (as ++ Hung.leaves hs) (ss ++ Hung.steps as.length hs)

/-- Nothing is released beyond the innermost open parenthesis. -/
theorem Stack.release_eq {s : Scope} {n : Nat} {l : List Sign} {ws : List Waiting} {as : List Atom}
    {ss : List Step} (st : Stack s n l ws as ss) (op : Operator) : Progress.release op ws = ([], ws) := by
  cases st <;> rfl

/-- The operators that a completion releases are those that the machine releases. -/
theorem Completes.release_eq {s : Scope} {ph : Phrase} {v m : List Sign} {hs : List Hung} {t : Tree}
    {out left : List Hung} {l' m' : List Sign} {t' : Tree} (h : Completes s ph v m hs t out left l' m' t')
    {op : Operator} {ws : List Waiting} (hy : ∀ w ∈ ph.own, Progress.yieldsTo w op = true)
    (hl : ∀ h ∈ left.head?, Progress.yieldsTo h.op op = false) (hw : Progress.release op ws = ([], ws)) :
    Progress.release op (Hung.waiting hs ++ ws) = (out.map fun h => .apply h.op, Hung.waiting left ++ ws) := by
  have hleft : Progress.release op (Hung.waiting left ++ ws) = ([], Hung.waiting left ++ ws) := by
    cases left with
    | nil => exact hw
    | cons x xs => exact Progress.release_cons_of_not (hl x (by simp))
  have hout : ∀ w ∈ out.map Hung.op, Progress.yieldsTo w op = true := by
    intro w hw
    obtain ⟨x, hx, rfl⟩ := List.mem_map.1 hw
    exact hy _ (h.own x hx)
  rw [h.split]
  simpa [Hung.waiting, Function.comp_def] using Progress.release_append hleft hout

/-- What has been read, and how the machine stands after it: an operand is expected, or one is
complete. -/
inductive Stands (s : Scope) (n : Nat) (r : List Sign) (p : Progress) : Prop where
  | expecting {l ws as ss v hs} (st : Stack s n l ws as ss) (b : Begun s .unary v hs) (signs : r = l ++ v)
      (eq : p = ⟨as ++ Hung.leaves hs, ss ++ Hung.steps as.length hs, Hung.waiting hs ++ ws, true⟩)
  | filled {l ws as ss v hs u t} (st : Stack s n l ws as ss) (b : Begun s .unary v hs)
      (d : Derives s .unary u t) (signs : r = l ++ v ++ u)
      (eq : p = ⟨as ++ Hung.leaves hs ++ t.leaves,
        ss ++ Hung.steps as.length hs ++ t.postOrder (as.length + (Hung.leaves hs).length),
        Hung.waiting hs ++ ws, false⟩)

namespace Stands

variable {source : String} {s : Scope} {n pos : Nat} {r : List Sign} {p q : Progress}

theorem start : Stands .outer 0 [] .start :=
  .expecting .base (.unary (.conj (.alt .seq))) rfl rfl

/-! ## What each token does -/

/-- After a complete operand, an operator whose left operand the completed part is waits for its
right one. -/
theorem operator {s : Scope} {n : Nat} {l v u l' m' : List Sign} {ws : List Waiting} {as : List Atom} {ss : List Step}
    {hs out left : List Hung} {t t' : Tree} {ph : Phrase} {op : Operator} {c : List Sign}
    (st : Stack s n l ws as ss) (h : Completes s ph v u hs t out left l' m' t')
    (b : Begun s .unary (l' ++ m' ++ c) (⟨op, some t'⟩ :: left)) :
    Stands s n (l ++ v ++ u ++ c) ⟨as ++ Hung.leaves hs ++ t.leaves,
      ss ++ Hung.steps as.length hs ++ t.postOrder (as.length + (Hung.leaves hs).length) ++
        out.map (fun h => .apply h.op),
      .operator op :: (Hung.waiting left ++ ws), true⟩ := by
  refine .expecting st b ?_ ?_
  · rw [List.append_assoc l, h.signs, List.append_assoc, List.append_assoc]
  · have hs' := h.steps as.length
    simp only [Hung.leaves, Hung.steps, Hung.waiting, List.map_cons, Option.map_some, Option.getD_some,
      List.append_assoc, List.cons_append, Progress.mk.injEq, true_and, and_true, h.leaves] at hs' ⊢
    rw [hs']

/-- A token that starts an operand meets a machine that expects one, if need be after an implicit
conjunction. -/
theorem expect {t : Token} (h : Stands s n r p) (ht : t.startsOperand = true) (hq : p.take source t = .ok q) :
    ∃ p', Stands s n r p' ∧ p'.expects = true ∧ p'.read source t = .ok q := by
  cases h with
  | expecting st b signs eq =>
    subst eq
    rw [Progress.take_of_expects _ rfl] at hq
    exact ⟨_, .expecting st b signs rfl, rfl, hq⟩
  | filled st b d signs eq =>
    subst eq signs
    rw [Progress.take_of_adjacent rfl ht, bind_eq_ok] at hq
    obtain ⟨p', hp, hq⟩ := hq
    obtain ⟨t', hc⟩ := b.complete_seq d
    have hrel := hc.release_eq (by decide) (by simp) (st.release_eq .implicitAnd)
    simp only [Progress.read, Bool.false_eq_true, if_false, hrel, Except.ok.injEq] at hp
    subst hp
    refine ⟨_, ?_, rfl, hq⟩
    simpa using operator (c := []) st hc (.unary (.conj (by simpa using Begun.adjacent hc.derives)))

/-- A condition is a complete operand. -/
theorem atom {a : Atom} {u : List Sign} (h : Stands s n r p) (d : Derives s .primary u (.atom a))
    (hq : p.take source ⟨.atom a, pos⟩ = .ok q) : Stands s n (r ++ u) q := by
  obtain ⟨p, hp, he, hq⟩ := h.expect rfl hq
  cases hp with
  | filled _ _ _ _ eq => subst eq; cases he
  | expecting st b signs eq =>
    subst eq signs
    cases hq
    exact .filled st b (.primary d) rfl (by simp [Tree.leaves, Tree.postOrder])

/-- A parenthesis opens in front of an operand. -/
theorem opening (h : Stands s n r p) (hq : p.take source ⟨.opening, pos⟩ = .ok q) :
    Stands s (n + 1) (r ++ [.mark '(']) q := by
  obtain ⟨p, hp, he, hq⟩ := h.expect rfl hq
  cases hp with
  | filled _ _ _ _ eq => subst eq; cases he
  | expecting st b signs eq =>
    subst eq signs
    cases hq
    exact .expecting (.parens pos st b) (.unary (.conj (.alt .seq))) (by simp)
      (by simp [Hung.leaves, Hung.steps, Hung.waiting])

/-- A group of options opens in front of its options. -/
theorem group {k : List Char} {c : Char} {cmp : Comparison} (hc : Comparison.ofSymbol? c = some cmp)
    (h : Stands .outer n r p) (hq : p.take source ⟨.opening, pos⟩ = .ok q) :
    Stands (.options k cmp) 0 (r ++ [.word k, .mark c, .mark '(']) q := by
  obtain ⟨p, hp, he, hq⟩ := h.expect rfl hq
  cases hp with
  | filled _ _ _ _ eq => subst eq; cases he
  | expecting st b signs eq =>
    subst eq signs
    cases hq
    exact .expecting (.group pos hc st b) (.unary (.conj (.alt .seq))) (by simp)
      (by simp [Hung.leaves, Hung.steps, Hung.waiting])

/-- A negation waits for its operand. -/
theorem not (h : Stands s n r p) (hq : p.take source ⟨.operator .not, pos⟩ = .ok q) :
    Stands s n (r ++ [.mark '~']) q := by
  obtain ⟨p, hp, he, hq⟩ := h.expect rfl hq
  cases hp with
  | filled _ _ _ _ eq => subst eq; cases he
  | expecting st b signs eq =>
    subst eq signs
    cases hq
    exact .expecting st (.not b) (by simp) (by simp [Hung.leaves, Hung.steps, Hung.waiting])

/-- A binary operator takes what is complete as its left operand. -/
theorem binary {c : Char} {op : Operator} (hc : Operator.ofSymbol? c = some op) (hop : op ≠ .not)
    (h : Stands s n r p) (hq : p.take source ⟨.operator op, pos⟩ = .ok q) : Stands s n (r ++ [.mark c]) q := by
  have hread : p.take source ⟨.operator op, pos⟩ = p.read source ⟨.operator op, pos⟩ :=
    Progress.take_of_not_starts _ (by cases op <;> first | rfl | exact absurd rfl hop)
  rw [hread] at hq
  cases h with
  | expecting _ _ _ eq =>
    subst eq
    cases op <;> first | exact absurd rfl hop | cases hq
  | filled st b d signs eq =>
    subst eq signs
    unfold Operator.ofSymbol? at hc
    split at hc <;> cases hc
    · -- `&` completes the conjunction
      obtain ⟨out, left, l', m', t', h⟩ := b.complete_conj d
      have hhead : ∀ x ∈ left.head?, Progress.yieldsTo x.op .and = false := by
        intro x hx
        have ho := h.begun.head_of_conj x hx
        simp only [List.mem_cons, List.not_mem_nil, or_false] at ho
        rcases ho with ho | ho | ho <;> rw [ho] <;> rfl
      have hrel := h.release_eq (by decide) hhead (st.release_eq .and)
      simp only [Progress.read, Bool.false_eq_true, if_false, hrel, Except.ok.injEq] at hq
      subst hq
      exact operator st h (.and h.begun h.derives)
    all_goals first
      | exact absurd rfl hop
      | skip
    all_goals
      obtain ⟨out, left, l', m', t', h⟩ := b.complete_alt d
      have hhead : ∀ x ∈ left.head?, x.op = .implicitAnd := by
        rcases h.begun.eq_of_alt with rfl | ⟨t, rfl⟩ <;> simp
    · have hrel := h.release_eq (by decide) (fun x hx => by rw [hhead x hx]; rfl) (st.release_eq .or)
      simp only [Progress.read, Bool.false_eq_true, if_false, hrel, Except.ok.injEq] at hq
      subst hq
      exact operator st h (.unary (.alternative (by decide) h.begun h.derives))
    · have hrel := h.release_eq (by decide) (fun x hx => by rw [hhead x hx]; rfl) (st.release_eq .xor)
      simp only [Progress.read, Bool.false_eq_true, if_false, hrel, Except.ok.injEq] at hq
      subst hq
      exact operator st h (.unary (.alternative (by decide) h.begun h.derives))

/-- A closing parenthesis completes what the last open one holds. -/
theorem close {v u : List Sign} {ws : List Waiting} {as : List Atom} {ss : List Step} {hs : List Hung}
    {t : Tree} {o : Nat} {toks : Token} (b : Begun s .unary v hs) (d : Derives s .unary u t)
    (hk : toks.kind = .closing)
    (hq : Progress.read source ⟨as ++ Hung.leaves hs ++ t.leaves, ss ++ Hung.steps as.length hs ++
      t.postOrder (as.length + (Hung.leaves hs).length), Hung.waiting hs ++ .opening o :: ws, false⟩ toks = .ok q) :
    ∃ t', Derives s .seq (v ++ u) t' ∧
      q = ⟨as ++ t'.leaves, ss ++ t'.postOrder as.length, ws, false⟩ := by
  obtain ⟨t', h⟩ := b.complete_seq d
  refine ⟨t', h.derives, ?_⟩
  have hc : Progress.close (Hung.waiting hs ++ .opening o :: ws) = some ((hs.map Hung.op).map .apply, ws) :=
    Progress.close_append o ws _
  have hl : Hung.leaves hs ++ t.leaves = t'.leaves := h.leaves
  have hs' := h.steps as.length
  simp only [Progress.read, hk, Bool.false_eq_true, if_false, hc, Except.ok.injEq] at hq
  subst hq
  simp only [Hung.steps, Hung.leaves, List.nil_append, List.length_nil, Nat.add_zero] at hs'
  rw [← hl, ← hs']
  simp

/-- A parenthesis is closed: one of those inside the group, or the one of the group itself. -/
theorem closing (h : Stands s n r p) (hq : p.take source ⟨.closing, pos⟩ = .ok q) :
    (∃ m, n = m + 1 ∧ Stands s m (r ++ [.mark ')']) q) ∨
      (n = 0 ∧ (∃ k cmp, s = .options k cmp) ∧ ∃ m, Stands .outer m (r ++ [.mark ')']) q) := by
  rw [Progress.take_of_not_starts _ rfl] at hq
  cases h with
  | expecting _ _ _ eq => subst eq; cases hq
  | filled st b d signs eq =>
    subst eq signs
    cases st with
    | base => simp only [Progress.read, Hung.waiting, List.append_nil, Progress.close_operators] at hq; cases hq
    | parens o st bo =>
      obtain ⟨t', d', rfl⟩ := close b d rfl hq
      refine .inl ⟨_, rfl, .filled st bo (.primary (.parens d')) (by simp) (by simp)⟩
    | group o hc st bo =>
      obtain ⟨t', d', rfl⟩ := close b d rfl hq
      exact .inr ⟨rfl, ⟨_, _, rfl⟩, _, .filled st bo (.primary (.group hc d')) (by simp) (by simp)⟩

end Stands

/-! ## From tokens to derivations -/

/-- How lexemes give tokens, lexeme by lexeme. -/
inductive Gives (source : String) : Mode → List Lexeme → List Token → Prop where
  | nil : Gives source .outer [] []
  | operator {m c p ls ts op} (hc : Operator.ofSymbol? c = some op) (g : Gives source m ls ts) :
      Gives source m (.mark c p :: ls) (⟨.operator op, p⟩ :: ts)
  | opening {m p ls ts} (g : Gives source m.enter ls ts) :
      Gives source m (.mark '(' p :: ls) (⟨.opening, p⟩ :: ts)
  | closing {m p ls ts} (g : Gives source m ls ts) :
      Gives source m.enter (.mark ')' p :: ls) (⟨.closing, p⟩ :: ts)
  | condition {k c w p q r cmp a ls ts} (hc : Comparison.ofSymbol? c = some cmp)
      (ha : Atom.make source k cmp w r = .ok a) (g : Gives source .outer ls ts) :
      Gives source .outer (.word k p :: .mark c q :: .word w r :: ls) (⟨.atom a, p⟩ :: ts)
  | option {k cmp opened inner seen w p a ls ts} (ha : Atom.make source k cmp w p = .ok a)
      (g : Gives source (.inside k cmp opened inner true) ls ts) :
      Gives source (.inside k cmp opened inner seen) (.word w p :: ls) (⟨.atom a, p⟩ :: ts)
  | group {k c p q r cmp ls ts} (hc : Comparison.ofSymbol? c = some cmp)
      (g : Gives source (.inside k cmp r 0 false) ls ts) :
      Gives source .outer (.word k p :: .mark c q :: .mark '(' r :: ls) (⟨.opening, r⟩ :: ts)
  | groupEnd {k cmp opened p ls ts} (g : Gives source .outer ls ts) :
      Gives source (.inside k cmp opened 0 true) (.mark ')' p :: ls) (⟨.closing, p⟩ :: ts)

theorem gives_of_tokensIn {source : String} : ∀ {m : Mode} {ls : List Lexeme} {ts : List Token},
    tokensIn source m ls = .ok ts → Gives source m ls ts
  | .outer, [], ts, h => by cases h; exact .nil
  | .inside .., [], ts, h => by cases h
  -- a word inside a group is an operand under its keyword
  | .inside k cmp opened inner seen, .word w p :: ls, ts, h => by
    rcases ha : Atom.make source k cmp w p with e | a
    · simp [tokensIn, Token.options, ha] at h
    · rw [tokensIn_option ha, map_eq_ok] at h
      obtain ⟨ts, h, rfl⟩ := h
      exact .option ha (gives_of_tokensIn h)
  -- a word outside begins a condition or a group, so a comparison and a word or a bracket follow
  | .outer, [.word k p], ts, h => by simp [tokensIn, Token.explicit] at h
  | .outer, .word k p :: .word w q :: ls, ts, h => by simp [tokensIn, Token.explicit] at h
  | .outer, [.word k p, .mark c q], ts, h => by
    rcases hc : Comparison.ofSymbol? c with _ | cmp <;> simp [tokensIn, Token.explicit, hc] at h
  | .outer, .word k p :: .mark c q :: .word w r :: ls, ts, h => by
    rcases hc : Comparison.ofSymbol? c with _ | cmp
    · simp [tokensIn, Token.explicit, hc] at h
    rcases ha : Atom.make source k cmp w r with e | a
    · simp [tokensIn, Token.explicit, hc, ha] at h
    · rw [tokensIn_condition hc ha, map_eq_ok] at h
      obtain ⟨ts, h, rfl⟩ := h
      exact .condition hc ha (gives_of_tokensIn h)
  | .outer, .word k p :: .mark c q :: .mark d r :: ls, ts, h => by
    rcases hc : Comparison.ofSymbol? c with _ | cmp
    · simp [tokensIn, Token.explicit, hc] at h
    by_cases hd : d = '('
    · subst hd
      rw [tokensIn_group hc, map_eq_ok] at h
      obtain ⟨ts, h, rfl⟩ := h
      exact .group hc (gives_of_tokensIn h)
    · simp [tokensIn, Token.explicit, hc, hd] at h
  | m, .mark c p :: ls, ts, h => by
    rcases hc : Operator.ofSymbol? c with _ | op
    · by_cases ho : c = '('
      · subst ho
        rw [tokensIn_opening, map_eq_ok] at h
        obtain ⟨ts, h, rfl⟩ := h
        exact .opening (gives_of_tokensIn h)
      by_cases hcl : c = ')'
      · subst hcl
        -- a closing bracket leaves what an opening one entered, unless it ends a group
        have hclose : ∀ m' : Mode, m = m'.enter → Gives source m (.mark ')' p :: ls) ts := by
          rintro m' rfl
          rw [tokensIn_closing, map_eq_ok] at h
          obtain ⟨ts, h, rfl⟩ := h
          exact .closing (gives_of_tokensIn h)
        rcases m with _ | ⟨k, cmp, opened, _ | inner, seen⟩
        · exact hclose .outer rfl
        · cases seen
          · simp [tokensIn, Token.options, hc] at h
          · rw [tokensIn_groupEnd, map_eq_ok] at h
            obtain ⟨ts, h, rfl⟩ := h
            exact .groupEnd (gives_of_tokensIn h)
        · exact hclose (.inside k cmp opened inner seen) rfl
      · cases m <;> simp [tokensIn, Token.explicit, Token.options, hc, ho, hcl] at h
    · rw [tokensIn_operator hc, map_eq_ok] at h
      obtain ⟨ts, h, rfl⟩ := h
      exact .operator hc (gives_of_tokensIn h)
  termination_by _ ls => ls.length

theorem Gives.lexemes_eq_nil {source : String} {m : Mode} {ls : List Lexeme} (g : Gives source m ls []) :
    ls = [] := by
  cases g; rfl

/-- The parentheses that a standing among lexemes knows of. -/
def Mode.Counts : Mode → Nat → Prop
  | .outer, _ => True
  | .inside _ _ _ inner _, n => n = inner

theorem foldlM_take_cons {source : String} {a : Token} {ts : List Token} {p q : Progress} :
    (a :: ts).foldlM (Progress.take source) p = .ok q ↔
      ∃ p', p.take source a = .ok p' ∧ ts.foldlM (Progress.take source) p' = .ok q := by
  rw [List.foldlM_cons, bind_eq_ok]

/-- Whatever the machine accepts, it stands after what it has read. -/
theorem Gives.stands {source : String} {m : Mode} {ls : List Lexeme} {ts : List Token} (g : Gives source m ls ts) :
    ∀ {n : Nat} {r : List Sign} {p q : Progress}, m.Counts n → Stands m.scope n r p →
      ts.foldlM (Progress.take source) p = .ok q → ∃ n', Stands .outer n' (r ++ ls.map Lexeme.sign) q := by
  induction g with
  | nil =>
    intro n r p q _ h hq
    cases hq
    exact ⟨n, by rwa [List.map_nil, List.append_nil]⟩
  | @operator m c p ls ts op hc g ih =>
    intro n r p q hm h hq
    obtain ⟨p', hp, hq⟩ := foldlM_take_cons.1 hq
    -- only a negation stands before its operand
    have h' : Stands m.scope n (r ++ [.mark c]) p' := by
      by_cases ho : op = .not
      · subst ho
        obtain rfl : c = '~' := by
          unfold Operator.ofSymbol? at hc
          split at hc <;> first | rfl | cases hc
        exact h.not hp
      · exact h.binary hc ho hp
    simpa [Lexeme.sign] using ih hm h' hq
  | @opening m p ls ts g ih =>
    intro n r p q hm h hq
    obtain ⟨p', hp, hq⟩ := foldlM_take_cons.1 hq
    -- one bracket more is open, for the reader and for the sentence read so far
    have hm' : m.enter.Counts (n + 1) := by
      cases m with
      | outer => trivial
      | inside => cases hm; rfl
    have h' : Stands m.enter.scope (n + 1) (r ++ [.mark '(']) p' := by
      rw [Mode.scope_enter]
      exact h.opening hp
    simpa [Lexeme.sign] using ih hm' h' hq
  | @closing m p ls ts g ih =>
    intro n r p q hm h hq
    obtain ⟨p', hp, hq⟩ := foldlM_take_cons.1 hq
    rw [Mode.scope_enter] at h
    -- the bracket closes one within the scope; it cannot close a group, since the mode has one more open
    rcases h.closing hp with ⟨k, rfl, h'⟩ | ⟨rfl, ⟨k, cmp, hk⟩, -⟩
    · have hm' : m.Counts k := by
        cases m with
        | outer => trivial
        | inside => cases hm; rfl
      simpa [Lexeme.sign] using ih hm' h' hq
    · cases m with
      | outer => cases hk
      | inside => cases hm
  | @condition k c w p q r cmp a ls ts hc ha g ih =>
    intro n l p q hm h hq
    obtain ⟨p', hp, hq⟩ := foldlM_take_cons.1 hq
    obtain ⟨hw, ha⟩ := make_eq_ok_iff.1 ha
    have h' := h.atom (ha ▸ Derives.condition (k := k) hc hw) hp
    simpa [Lexeme.sign] using ih trivial h' hq
  | @option k cmp opened inner seen w p a ls ts ha g ih =>
    intro n l p q hm h hq
    obtain ⟨p', hp, hq⟩ := foldlM_take_cons.1 hq
    obtain ⟨hw, ha⟩ := make_eq_ok_iff.1 ha
    have h' := h.atom (ha ▸ Derives.option hw) hp
    simpa [Lexeme.sign] using ih hm h' hq
  | @group k c p q r cmp ls ts hc g ih =>
    intro n l p q hm h hq
    obtain ⟨p', hp, hq⟩ := foldlM_take_cons.1 hq
    simpa [Lexeme.sign] using ih rfl (h.group hc hp) hq
  | @groupEnd k cmp opened p ls ts g ih =>
    intro n r p q hm h hq
    obtain ⟨p', hp, hq⟩ := foldlM_take_cons.1 hq
    cases hm
    -- no bracket within the group is open, so it is the group that closes
    rcases h.closing hp with ⟨k, hk, -⟩ | ⟨-, -, n', h'⟩
    · cases hk
    · simpa [Lexeme.sign] using ih trivial h' hq

/-! ## The compiler -/

/-- Compiling goes well when the machine ends with a complete operand and no open parenthesis. -/
theorem ofTokens_eq_ok {source : String} {a : Token} {ts : List Token} {p : Predicate} :
    ofTokens source (Token.joinAdjacent (a :: ts)) = .ok p ↔ ∃ q out,
      (a :: ts).foldlM (Progress.take source) .start = .ok q ∧ q.expects = false ∧
      Progress.finish source q.waiting = .ok out ∧ p = ⟨source, q.atoms, q.steps ++ out⟩ := by
  have hlast : (a :: ts).getLast? = some ((a :: ts).getLast (List.cons_ne_nil a ts)) :=
    List.getLast?_eq_some_getLast _
  unfold ofTokens
  rw [Progress.foldlM_joinAdjacent_start, Progress.getLast?_joinAdjacent, hlast, bind_eq_ok]
  constructor
  · rintro ⟨q, hq, h⟩
    rcases he : q.expects with _ | _
    · rw [he] at h
      obtain ⟨out, ho, h⟩ := bind_eq_ok.1 h
      cases h
      exact ⟨q, out, hq, he, ho, rfl⟩
    · rw [he] at h; cases h
  · rintro ⟨q, out, hq, he, ho, rfl⟩
    refine ⟨q, hq, ?_⟩
    rw [he]
    exact bind_eq_ok.2 ⟨out, ho, rfl⟩

theorem compile_eq_ok {source : String} {p : Predicate} : compile (some source) = .ok p ↔ ∃ ts,
    Token.explicit source (Lexeme.ofText source) = .ok ts ∧ ofTokens source (Token.joinAdjacent ts) = .ok p := by
  show (Token.ofText source >>= ofTokens source) = .ok p ↔ _
  rw [bind_eq_ok]
  unfold Token.ofText
  simp only [map_eq_ok]
  exact ⟨fun ⟨_, ⟨ts, h, rfl⟩, hp⟩ => ⟨ts, h, hp⟩, fun ⟨ts, h, hp⟩ => ⟨_, ⟨ts, h, rfl⟩, hp⟩⟩

/-- A machine that ends with a complete operand and no open parenthesis has read a sequence. -/
theorem Stands.finished {source : String} {n : Nat} {r : List Sign} {q : Progress} {out : List Step}
    (h : Stands .outer n r q) (he : q.expects = false) (ho : Progress.finish source q.waiting = .ok out) :
    ∃ t, Derives .outer .seq r t ∧ q.atoms = t.leaves ∧ q.steps ++ out = t.postOrder 0 := by
  cases h with
  | expecting _ _ _ eq =>
    subst eq
    cases he
  | filled st b d signs eq =>
    subst eq
    cases st with
    | parens o st bo =>
      -- a parenthesis was never closed
      simp only [Hung.waiting, Progress.finish_opening] at ho
      cases ho
    | base =>
      obtain ⟨t, h⟩ := b.complete_seq d
      simp only [Hung.waiting, List.append_nil, Progress.finish_operators, Except.ok.injEq] at ho
      subst ho
      have hleaves := h.leaves
      have hsteps := h.steps 0
      simp only [Hung.leaves, Hung.steps, List.nil_append, List.length_nil, Nat.zero_add] at hleaves hsteps
      simp only [List.nil_append] at signs
      refine ⟨t, by rw [signs]; exact h.derives, by rw [← hleaves]; simp, ?_⟩
      rw [← hsteps]
      simp

/-- The tokens of a text that compiles are those of a rule, unless there are none. -/
theorem isRule_of_tokens {source : String} {a : Token} {ts : List Token} {p : Predicate}
    (hts : Token.explicit source (Lexeme.ofText source) = .ok (a :: ts))
    (hp : ofTokens source (Token.joinAdjacent (a :: ts)) = .ok p) :
    ∃ t, IsRule source t ∧ p = ⟨source, t.leaves, t.postOrder 0⟩ := by
  obtain ⟨q, out, hq, he, ho, rfl⟩ := ofTokens_eq_ok.1 hp
  have g : Gives source .outer (Lexeme.ofText source) (a :: ts) := gives_of_tokensIn hts
  obtain ⟨n, h⟩ := g.stands trivial .start hq
  obtain ⟨t, hd, hleaves, hsteps⟩ := h.finished he ho
  exact ⟨t, ⟨_, reads_scan source.toList 0, hd⟩, by rw [hleaves, hsteps]⟩

/-- The tokens of a rule compile to its tree. -/
theorem tokens_of_isRule {source : String} {t : Tree} (h : IsRule source t) : ∃ ts,
    Token.explicit source (Lexeme.ofText source) = .ok ts ∧
      ofTokens source (Token.joinAdjacent ts) = .ok ⟨source, t.leaves, t.postOrder 0⟩ := by
  obtain ⟨l, hl, hd⟩ := h
  obtain ⟨ts, hx, hf⟩ := hd.tokens source _ (hl.scan_eq 0)
  have hts : Token.explicit source (Lexeme.ofText source) = .ok ts := by
    have h := hx .outer rfl []
    rw [List.append_nil] at h
    simpa [tokensIn, Token.explicit, Mode.filled, Lexeme.ofText] using h
  obtain ⟨a, as, rfl, -⟩ := hf.head
  obtain ⟨out, ws, h1, h2, -⟩ := hf.run .start rfl (Phrase.clear_nil _)
  refine ⟨_, hts, ofTokens_eq_ok.2 ⟨_, ws.map .apply, h1, rfl, ?_, ?_⟩⟩
  · show Progress.finish source (ws.map .operator ++ []) = _
    rw [List.append_nil, Progress.finish_operators]
  · rw [show t.postOrder 0 = out ++ ws.map .apply from h2.symm]
    rfl

/-- Compiling a rule succeeds exactly on blank texts, with no condition and no step, and on the texts
of the grammar, with the conditions of the tree from left to right and its post-order. -/
theorem compile_eq_ok_iff (source : String) (p : Predicate) :
    compile (some source) = .ok p ↔
      (Blank source ∧ p = ⟨source, [], []⟩) ∨ ∃ t, IsRule source t ∧ p = ⟨source, t.leaves, t.postOrder 0⟩ := by
  rw [compile_eq_ok]
  constructor
  · rintro ⟨ts, hts, hp⟩
    rcases ts with _ | ⟨a, ts⟩
    · -- no token comes of no lexeme only, and no lexeme of blanks only
      have g : Gives source .outer (Lexeme.ofText source) [] := gives_of_tokensIn hts
      have hl : Lexeme.scan 0 source.toList = [] := g.lexemes_eq_nil
      have hr := reads_scan source.toList 0
      rw [hl] at hr
      cases hp
      exact .inl ⟨reads_nil_iff.1 hr, rfl⟩
    · exact .inr (isRule_of_tokens hts hp)
  · rintro (⟨hb, rfl⟩ | ⟨t, ht, rfl⟩)
    · have hl := (reads_nil_iff.2 hb).scan_eq 0
      rw [List.map_eq_nil_iff] at hl
      refine ⟨[], ?_, rfl⟩
      rw [Lexeme.ofText, hl]
      rfl
    · exact tokens_of_isRule ht

end ShotTally.Rule
