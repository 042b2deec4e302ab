/-
The machine that brings tokens into postfix order, taken phrase by phrase. A machine that expects
an operand and is fed the tokens of a phrase ends with the conditions of its tree noted, and with
an output that, once the operators still waiting are released, is the post-order of the tree. What
is still waiting belongs to the phrase and yields to every operator that may follow it.
-/
import ShotTally.Proofs.Outcome
import ShotTally.Proofs.Rule.Grammar

namespace ShotTally.Rule

open Predicate

namespace Tree

@[simp] theorem leaves_not (t : Tree) : t.not.leaves = t.leaves := rfl

@[simp] theorem leaves_binary (op : Operator) (l r : Tree) :
    (binary op l r).leaves = l.leaves ++ r.leaves := rfl

@[simp] theorem postOrder_not (n : Nat) (t : Tree) :
    t.not.postOrder n = t.postOrder n ++ [.apply .not] := rfl

@[simp] theorem postOrder_binary (n : Nat) (op : Operator) (l r : Tree) :
    (binary op l r).postOrder n =
      l.postOrder n ++ r.postOrder (n + l.leaves.length) ++ [.apply op] := rfl

end Tree

/-! ## Tokens with the implicit conjunction understood -/

namespace Predicate.Progress

/-- Reads a token, after an implicit conjunction when it starts an operand next to one. -/
def take (source : String) (p : Progress) (t : Token) : Except Fault Progress :=
  if p.expects = false ∧ t.startsOperand = true then
    p.read source ⟨.operator .implicitAnd, t.position⟩ >>= fun q => q.read source t
  else p.read source t

theorem take_of_expects {source : String} {p : Progress} (t : Token) (h : p.expects = true) :
    p.take source t = p.read source t := by
  unfold take; rw [if_neg]; rintro ⟨h', -⟩; rw [h] at h'; cases h'

theorem take_of_not_starts {source : String} (p : Progress) {t : Token} (h : t.startsOperand = false) :
    p.take source t = p.read source t := by
  unfold take; rw [if_neg]; rintro ⟨-, h'⟩; rw [h] at h'; cases h'

theorem take_of_adjacent {source : String} {p : Progress} {t : Token} (h : p.expects = false)
    (ht : t.startsOperand = true) :
    p.take source t = p.read source ⟨.operator .implicitAnd, t.position⟩ >>= fun q => q.read source t :=
  if_pos ⟨h, ht⟩

/-- After a token an operand is expected unless the token ends one. -/
theorem expects_read {source : String} {p q : Progress} {t : Token} (h : p.read source t = .ok q) :
    q.expects = !t.endsOperand := by
  obtain ⟨k, pos⟩ := t
  unfold read at h
  cases k with
  | atom a => cases h; rfl
  | opening => cases h; rfl
  | closing =>
    simp only at h
    split at h
    · cases h
    · rename_i he
      split at h
      · cases h
      · cases h; simpa [Token.endsOperand] using he
  | operator op =>
    cases op <;> simp only at h <;> first | (cases h; rfl) | (split at h <;> cases h; rfl)

/-- Putting in the implicit conjunctions first is reading with them understood. -/
theorem foldlM_joinAdjacent (source : String) : ∀ (a : Token) (rest : List Token) (p : Progress),
    (Token.joinAdjacent (a :: rest)).foldlM (read source) p =
      p.read source a >>= fun q => rest.foldlM (take source) q
  | a, [], p => by simp [Token.joinAdjacent]
  | a, b :: rest, p => by
    unfold Token.joinAdjacent
    rcases hq : p.read source a with e | q
    · split <;> rw [List.foldlM_cons, hq] <;> rfl
    · have he := expects_read hq
      -- adjacent operands: the implicit conjunction is read before the second of them
      split
      · rename_i hab
        rw [Bool.and_eq_true] at hab
        rw [List.foldlM_cons, hq, ok_bind, ok_bind, List.foldlM_cons, List.foldlM_cons]
        rw [take_of_adjacent (by rw [he, hab.1]; rfl) hab.2, bind_assoc]
        exact bind_congr fun q' => foldlM_joinAdjacent source b rest q'
      · rename_i hab
        rw [List.foldlM_cons, hq, ok_bind, ok_bind, foldlM_joinAdjacent source b rest q, List.foldlM_cons]
        unfold take
        rw [if_neg]
        rintro ⟨h1, h2⟩
        rw [he, Bool.not_eq_false'] at h1
        exact hab (by rw [h1, h2]; rfl)

/-- From the start all tokens are read with the implicit conjunctions understood. -/
theorem foldlM_joinAdjacent_start (source : String) (a : Token) (ts : List Token) :
    (Token.joinAdjacent (a :: ts)).foldlM (read source) .start = (a :: ts).foldlM (take source) .start := by
  rw [foldlM_joinAdjacent, List.foldlM_cons, take_of_expects _ rfl]

/-- An implicit conjunction comes before a token, so never last. -/
theorem getLast?_joinAdjacent : ∀ ts : List Token, (Token.joinAdjacent ts).getLast? = ts.getLast?
  | [] => rfl
  | [_] => rfl
  | a :: b :: ts => by
    have ih := getLast?_joinAdjacent (b :: ts)
    unfold Token.joinAdjacent
    split <;> simp [ih, List.getLast?_cons]

/-! ## Waiting operators -/

/-- Operators that yield are released down to what does not. -/
theorem release_append {op : Operator} {left : List Waiting} (hl : release op left = ([], left)) :
    ∀ {ws : List Operator}, (∀ w ∈ ws, yieldsTo w op = true) →
      release op (ws.map .operator ++ left) = (ws.map .apply, left)
  | [], _ => hl
  | w :: ws, h => by
    have hr := release_append hl fun v hv => h v (List.mem_cons_of_mem w hv)
    simp only [List.map_cons, List.cons_append, release, h w List.mem_cons_self, if_true, hr]

theorem release_cons_of_not {op w : Operator} {left : List Waiting} (h : yieldsTo w op = false) :
    release op (.operator w :: left) = ([], .operator w :: left) := by
  simp [release, h]

/-- A closing parenthesis releases all operators down to the opening one. -/
theorem close_append (pos : Nat) (left : List Waiting) : ∀ ws : List Operator,
    close (ws.map .operator ++ .opening pos :: left) = some (ws.map .apply, left)
  | [] => rfl
  | w :: ws => by
    simp only [List.map_cons, List.cons_append, close, close_append pos left ws, Option.map_some]

theorem close_operators : ∀ ws : List Operator, close (ws.map .operator) = none
  | [] => rfl
  | w :: ws => by simp only [List.map_cons, close, close_operators ws, Option.map_none]

theorem finish_operators (source : String) : ∀ ws : List Operator,
    finish source (ws.map .operator) = .ok (ws.map .apply)
  | [] => rfl
  | w :: ws => by
    simp only [List.map_cons, finish, finish_operators source ws, ok_bind, pure_eq_ok]

theorem finish_opening (source : String) (pos : Nat) (left : List Waiting) : ∀ ws : List Operator,
    finish source (ws.map .operator ++ .opening pos :: left) = .error ⟨.neverClosed, source, "(", pos⟩
  | [] => rfl
  | w :: ws => by
    simp only [List.map_cons, List.cons_append, finish, finish_opening source pos left ws, error_bind]

end Predicate.Progress

/-! ## Phrases -/

namespace Phrase

/-- The operators that may still wait after a phrase was read. -/
def own : Phrase → List Operator
  | primary => []
  | unary => [.not]
  | conj => [.not, .and]
  | alt => [.not, .and, .or, .xor]
  | seq => [.not, .and, .or, .xor, .implicitAnd]

/-- The operators that a phrase may go on with. -/
def joins : Phrase → List Operator
  | primary | unary => []
  | conj => [.and]
  | alt => [.and, .or, .xor]
  | seq => [.and, .or, .xor, .implicitAnd]

/-- None of the operators that a phrase may go on with releases what waits before it. -/
def Clear (ph : Phrase) (waiting : List Predicate.Waiting) : Prop :=
  ∀ op ∈ ph.joins, Progress.release op waiting = ([], waiting)

theorem clear_opening (ph : Phrase) (pos : Nat) (left : List Waiting) : ph.Clear (.opening pos :: left) :=
  fun _ _ => rfl

theorem clear_nil (ph : Phrase) : ph.Clear [] := fun _ _ => rfl

end Phrase

/-- Feeding tokens to a machine that expects an operand adds a tree: its conditions, and an output
that the operators left waiting complete to its post-order. -/
structure Feeds (source : String) (ph : Phrase) (toks : List Token) (t : Tree) : Prop where
  head : ∃ a as, toks = a :: as ∧ a.startsOperand = true
  run : ∀ p : Progress, p.expects = true → ph.Clear p.waiting → ∃ (out : List Step) (ws : List Operator),
    toks.foldlM (Progress.take source) p =
      .ok ⟨p.atoms ++ t.leaves, p.steps ++ out, ws.map .operator ++ p.waiting, false⟩ ∧
    out ++ ws.map .apply = t.postOrder p.atoms.length ∧ ∀ w ∈ ws, w ∈ ph.own

namespace Feeds

variable {source : String} {ph phl phr : Phrase} {toks toksL toksR : List Token} {t l r : Tree}

theorem atom (a : Atom) (pos : Nat) : Feeds source .primary [⟨.atom a, pos⟩] (.atom a) := by
  refine ⟨⟨_, _, rfl, rfl⟩, fun p he _ => ⟨[.atom p.atoms.length], [], ?_, rfl, by simp⟩⟩
  rw [List.foldlM_cons, Progress.take_of_expects _ he]
  rfl

/-- A phrase read as one that binds less. -/
theorem weaken (h : Feeds source phl toks t) (ho : phl.own ⊆ ph.own) (hj : phl.joins ⊆ ph.joins) :
    Feeds source ph toks t := by
  refine ⟨h.head, fun p he hc => ?_⟩
  obtain ⟨out, ws, h1, h2, h3⟩ := h.run p he fun op hop => hc op (hj hop)
  exact ⟨out, ws, h1, h2, fun w hw => ho (h3 w hw)⟩

theorem not (h : Feeds source .unary toks t) (pos : Nat) :
    Feeds source .unary (⟨.operator .not, pos⟩ :: toks) t.not := by
  refine ⟨⟨_, _, rfl, rfl⟩, fun p he _ => ?_⟩
  obtain ⟨out, ws, h1, h2, h3⟩ := h.run { p with waiting := .operator .not :: p.waiting, expects := true }
    rfl (fun op hop => by simp [Phrase.joins] at hop)
  refine ⟨out, ws ++ [.not], ?_, ?_, ?_⟩
  · rw [List.foldlM_cons, Progress.take_of_expects _ he]
    show toks.foldlM _ _ = _
    rw [h1]; simp
  · rw [List.map_append, ← List.append_assoc, h2]; rfl
  · intro w hw
    rcases List.mem_append.1 hw with hw | hw
    · exact h3 w hw
    · simpa [Phrase.own] using hw

theorem parens (h : Feeds source .seq toks t) (pos pos' : Nat) :
    Feeds source .primary (⟨.opening, pos⟩ :: (toks ++ [⟨.closing, pos'⟩])) t := by
  refine ⟨⟨_, _, rfl, rfl⟩, fun p he _ => ?_⟩
  obtain ⟨out, ws, h1, h2, -⟩ := h.run { p with waiting := .opening pos :: p.waiting, expects := true }
    rfl (Phrase.clear_opening _ _ _)
  refine ⟨out ++ ws.map .apply, [], ?_, by simpa using h2, by simp⟩
  rw [List.foldlM_cons, Progress.take_of_expects _ he]
  show (toks ++ _).foldlM _ _ = _
  rw [List.foldlM_append, h1, ok_bind, List.foldlM_cons, Progress.take_of_not_starts _ rfl]
  simp [Progress.read, Progress.close_append]

/-- What reading a binary operator between two phrases makes of the machine. -/
theorem join (hl : Feeds source phl toksL l) (hr : Feeds source phr toksR r) (op : Operator)
    (hop : op ≠ .not) (mid : List Token → List Token) (pos : Nat)
    (hmid : ∀ q : Progress, q.expects = false → (mid toksR).foldlM (Progress.take source) q =
      q.read source ⟨.operator op, pos⟩ >>= fun q => toksR.foldlM (Progress.take source) q)
    (hy : ∀ w ∈ phl.own, Progress.yieldsTo w op = true) (hj : op ∈ ph.joins) (hs : phl.joins ⊆ ph.joins)
    (hk : ∀ o ∈ phr.joins, Progress.yieldsTo op o = false) (ho : op ∈ ph.own) (hw : phr.own ⊆ ph.own) :
    Feeds source ph (toksL ++ mid toksR) (.binary op l r) := by
  obtain ⟨a, as, rfl, ha⟩ := hl.head
  refine ⟨⟨a, as ++ mid toksR, rfl, ha⟩, fun p he hc => ?_⟩
  obtain ⟨out, ws, h1, h2, h3⟩ := hl.run p he fun o h => hc o (hs h)
  -- what waits of the left side yields to the operator, and nothing beneath it does
  have hrel := Progress.release_append (hc op hj) fun w h => hy w (h3 w h)
  obtain ⟨out', ws', h1', h2', h3'⟩ := hr.run ⟨p.atoms ++ l.leaves, p.steps ++ l.postOrder p.atoms.length,
    .operator op :: p.waiting, true⟩ rfl fun o h => Progress.release_cons_of_not (hk o h)
  refine ⟨l.postOrder p.atoms.length ++ out', ws' ++ [op], ?_, ?_, ?_⟩
  · rw [List.foldlM_append, h1, ok_bind, hmid _ rfl]
    -- so the operator finds the left side written out, and waits on top of what waited before
    have hread : Progress.read source ⟨p.atoms ++ l.leaves, p.steps ++ out, ws.map .operator ++ p.waiting, false⟩
        ⟨.operator op, pos⟩ = .ok ⟨p.atoms ++ l.leaves, p.steps ++ l.postOrder p.atoms.length,
          .operator op :: p.waiting, true⟩ := by
      rw [← h2, ← List.append_assoc]
      cases op <;> first | exact absurd rfl hop | simp [Progress.read, hrel]
    rw [hread, ok_bind, h1']
    simp
  · rw [Tree.postOrder_binary, ← List.length_append, ← h2']; simp
  · intro w h
    rcases List.mem_append.1 h with h | h
    · exact hw (h3' w h)
    · rw [List.mem_singleton.1 h]; exact ho

/-- Two phrases with an operator between them. -/
theorem binary (hl : Feeds source phl toksL l) (hr : Feeds source phr toksR r) {op : Operator}
    (hop : op ≠ .not) (pos : Nat) (hy : ∀ w ∈ phl.own, Progress.yieldsTo w op = true) (hj : op ∈ ph.joins)
    (hs : phl.joins ⊆ ph.joins) (hk : ∀ o ∈ phr.joins, Progress.yieldsTo op o = false) (ho : op ∈ ph.own)
    (hw : phr.own ⊆ ph.own) :
    Feeds source ph (toksL ++ ⟨.operator op, pos⟩ :: toksR) (.binary op l r) := by
  refine hl.join hr op hop (⟨.operator op, pos⟩ :: ·) pos (fun q _ => ?_) hy hj hs hk ho hw
  rw [List.foldlM_cons, Progress.take_of_not_starts]
  cases op <;> first | exact absurd rfl hop | rfl

/-- Two phrases side by side. -/
theorem adjacent (hl : Feeds source .seq toksL l) (hr : Feeds source .alt toksR r) :
    Feeds source .seq (toksL ++ toksR) (.binary .implicitAnd l r) := by
  obtain ⟨a, as, rfl, ha⟩ := hr.head
  refine hl.join hr .implicitAnd (by decide) id a.position (fun q hq => ?_) (by decide) (by decide)
    (by decide) (by decide) (by decide) (by decide)
  rw [id, List.foldlM_cons]
  rw [Progress.take_of_adjacent hq ha, bind_assoc]
  rcases hq' : q.read source ⟨.operator .implicitAnd, a.position⟩ with e | q'
  · rfl
  · rw [ok_bind, ok_bind, List.foldlM_cons, Progress.take_of_expects _ (Progress.expects_read hq')]

end Feeds
end ShotTally.Rule
