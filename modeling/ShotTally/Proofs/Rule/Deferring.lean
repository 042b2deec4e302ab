/-
Evaluating a rule along its tree. The steps of a tree leave one operand on the stack, whatever lies
below: the condition itself, not looked at, where the tree is a single condition, and a mask where it
is not. What is asked for on the way does not depend on how the conditions are numbered, so a rule
that is part of a larger one is evaluated there as it is on its own.
-/
import ShotTally.Proofs.Rule.Acceptance
import ShotTally.Proofs.Rule.Asking

namespace ShotTally.Rule

open Predicate

variable {accessor : Accessor}

/-! ## What a tree leaves -/

/-- An operand that a tree leaves: a condition not looked at, or a mask. -/
inductive Finding where
  | unread (a : Atom)
  | known (m : Mask)

namespace Finding

/-- The mask of an operand. -/
def look (accessor : Accessor) : Finding → Asking Mask
  | unread a => do
    let c ← column accessor a.keyword
    ExceptT.mk (pure (a.onColumn c))
  | known m => return m

/-- The mask of a binary operator, the right operand looked at only where the left does not settle the
result. -/
def weigh (accessor : Accessor) (op : Operator) (left right : Finding) : Asking Mask := do
  let l ← left.look accessor
  if settles op l then return l
  else
    let r ← right.look accessor
    ExceptT.mk (pure (Mask.combine op l r))

/-- The operand on the stack, the condition going by its number. -/
def slot (n : Nat) : Finding → Slot
  | unread _ => .pending n
  | known m => .ready m

/-- The condition of an operand has this number in a program. -/
def StandsAt (p : Predicate) (n : Nat) (f : Finding) : Prop := ∀ a, f = unread a → p.atoms[n]? = some a

variable {p : Predicate} {f g : Finding} {n k : Nat}

theorem resolve_slot (h : f.StandsAt p n) : p.resolve accessor (f.slot n) = f.look accessor := by
  cases f with
  | unread a => simp only [slot, resolve, look, h a rfl]
  | known m => rfl

theorem join_slot {op : Operator} (hf : f.StandsAt p n) (hg : g.StandsAt p k) :
    p.join accessor op (f.slot n) (g.slot k) = weigh accessor op f g := by
  unfold join weigh
  rw [resolve_slot hf, resolve_slot hg]

end Finding

namespace Tree

/-- What a tree leaves: operators are applied as they come, in post-order, and a condition waits for the
operator that needs it. -/
def find (accessor : Accessor) : Tree → Asking Finding
  | atom a => return .unread a
  | not t => do
    let m ← (← t.find accessor).look accessor
    return .known m.not
  | binary op l r => do
    let f ← l.find accessor
    let g ← r.find accessor
    return .known (← f.weigh accessor op g)

/-- No operator of two operands is a negation. -/
def Proper : Tree → Prop
  | atom _ => True
  | not t => t.Proper
  | binary op l r => op ≠ .not ∧ l.Proper ∧ r.Proper

end Tree

theorem Derives.proper {s : Scope} {ph : Phrase} {l : List Sign} {t : Tree} (h : Derives s ph l t) : t.Proper := by
  induction h with
  | condition | option => trivial
  | group _ _ ih | parens _ ih | primary _ ih | not _ ih | unary _ ih | conj _ ih | alt _ ih => exact ih
  | and _ _ ihl ihr => exact ⟨by decide, ihl, ihr⟩
  | alternative ho _ _ ihl ihr =>
    rcases alternative_cases ho with ⟨-, rfl⟩ | ⟨-, rfl⟩ <;> exact ⟨by decide, ihl, ihr⟩
  | adjacent _ _ ihl ihr => exact ⟨by decide, ihl, ihr⟩

namespace Tree

theorem find_not (t : Tree) : t.not.find accessor =
    t.find accessor >>= fun f => f.look accessor >>= fun m => pure (.known m.not) := rfl

theorem find_binary (op : Operator) (l r : Tree) : (binary op l r).find accessor =
    l.find accessor >>= fun f => r.find accessor >>= fun g => f.weigh accessor op g >>= fun m => pure (.known m) := rfl

/-- Only a single condition is left unread. -/
theorem find_bind_congr {β : Type} {g h : Finding → Asking β} : ∀ {t : Tree},
    (∀ f, (∀ a, f = .unread a → t = atom a) → g f = h f) → t.find accessor >>= g = t.find accessor >>= h
  | atom a, hgh => by
    show pure (Finding.unread a) >>= g = pure (Finding.unread a) >>= h
    rw [pure_bind, pure_bind]
    exact hgh _ fun b hb => by rw [Finding.unread.inj hb]
  | not t, hgh => by
    simp only [find_not, bind_assoc, pure_bind]
    exact bind_congr fun f => bind_congr fun m => hgh _ fun a ha => by cases ha
  | binary op l r, hgh => by
    simp only [find_binary, bind_assoc, pure_bind]
    exact bind_congr fun f => bind_congr fun g => bind_congr fun m => hgh _ fun a ha => by cases ha

/-- A tree with an operator leaves a mask: there is nothing more to look at. -/
theorem find_eq_known {t : Tree} (h : ∀ a, t ≠ atom a) :
    t.find accessor = t.find accessor >>= fun f => f.look accessor >>= fun m => pure (.known m) := by
  conv_lhs => rw [← bind_pure (t.find accessor)]
  refine find_bind_congr fun f hf => ?_
  cases f with
  -- a condition is left unread only by a tree that is this condition
  | unread a => exact absurd (hf a rfl) (h a)
  | known m => rfl

/-- The conditions of a tree stand in a program from a place on. -/
def StandsAt (p : Predicate) (n : Nat) (t : Tree) : Prop := ∀ i a, t.leaves[i]? = some a → p.atoms[n + i]? = some a

/-- What a tree leaves has the number of the tree's first condition. -/
theorem StandsAt.finding {p : Predicate} {n : Nat} {t : Tree} {f : Finding} (h : t.StandsAt p n)
    (hf : ∀ a, f = .unread a → t = atom a) : f.StandsAt p n := by
  intro a ha
  have ht := hf a ha
  subst ht
  exact h 0 a rfl

theorem StandsAt.left {p : Predicate} {n : Nat} {op : Operator} {l r : Tree} (h : (binary op l r).StandsAt p n) :
    l.StandsAt p n := by
  intro i a hi
  refine h i a ?_
  rw [leaves_binary, List.getElem?_append_left (List.getElem?_eq_some_iff.1 hi).1]
  exact hi

theorem StandsAt.right {p : Predicate} {n : Nat} {op : Operator} {l r : Tree} (h : (binary op l r).StandsAt p n) :
    r.StandsAt p (n + l.leaves.length) := by
  intro i a hi
  rw [Nat.add_assoc]
  refine h (l.leaves.length + i) a ?_
  rw [leaves_binary, List.getElem?_append_right (Nat.le_add_right _ _), Nat.add_sub_cancel_left]
  exact hi

/-- The steps of a tree put what it leaves on top of the stack. -/
theorem foldlM_postOrder {p : Predicate} : ∀ {t : Tree} {n : Nat}, t.Proper → t.StandsAt p n → ∀ stack : List Slot,
    (t.postOrder n).foldlM (p.perform accessor) stack = t.find accessor >>= fun f => pure (f.slot n :: stack)
  | atom a, n, _, _, stack => rfl
  | not t, n, ht, hs, stack => by
    have hst : t.StandsAt p n := hs
    rw [postOrder_not, List.foldlM_append, foldlM_postOrder (t := t) ht hst stack, bind_assoc, find_not, bind_assoc]
    refine find_bind_congr fun f hf => ?_
    have hlook : p.resolve accessor (f.slot n) = f.look accessor := Finding.resolve_slot (hst.finding hf)
    rw [pure_bind, List.foldlM_cons, perform_not, hlook, bind_assoc, bind_assoc]
    rfl
  | binary op l r, n, ⟨hop, hl, hr⟩, hs, stack => by
    rw [postOrder_binary, List.foldlM_append, List.foldlM_append, foldlM_postOrder hl hs.left stack, find_binary,
      bind_assoc, bind_assoc, bind_assoc]
    refine find_bind_congr fun f hf => ?_
    rw [pure_bind, foldlM_postOrder hr hs.right (f.slot n :: stack), bind_assoc, bind_assoc]
    -- both operands are found by now, and lie on the stack in reverse
    refine find_bind_congr fun g hg => ?_
    rw [pure_bind, List.foldlM_cons, perform_binary p hop, Finding.join_slot (hs.left.finding hf) (hs.right.finding hg),
      bind_assoc, bind_assoc]
    rfl

theorem postOrder_ne_nil (t : Tree) (n : Nat) : t.postOrder n ≠ [] := by
  cases t <;> simp [postOrder]

/-- The predicate of a tree. -/
def predicate (source : String) (t : Tree) : Predicate := ⟨source, t.leaves, t.postOrder 0⟩

/-- A rule is evaluated by finding what its tree leaves and looking at that. -/
theorem inquire_predicate {t : Tree} (source : String) (ht : t.Proper) :
    (t.predicate source).inquire accessor = t.find accessor >>= Finding.look accessor := by
  have hsteps : (t.predicate source).isTrivial = false := by
    unfold predicate isTrivial
    rw [List.isEmpty_eq_false_iff]
    exact postOrder_ne_nil t 0
  have hs : t.StandsAt (t.predicate source) 0 := by
    intro i a hi
    rwa [Nat.zero_add]
  rw [inquire_of_steps hsteps]
  show (t.postOrder 0).foldlM _ [] >>= _ = _
  rw [foldlM_postOrder ht hs, bind_assoc]
  refine find_bind_congr fun f hf => ?_
  rw [pure_bind]
  exact Finding.resolve_slot (hs.finding hf)

end Tree

/-! ## Asking along a tree -/

theorem Finding.asks_look : ∀ f : Finding, Asks accessor (f.look accessor)
  | unread a => (Asks.column a.keyword).bind fun _ => .given _
  | known m => .pure m

theorem Finding.asks_weigh (op : Operator) (f g : Finding) : Asks accessor (f.weigh accessor op g) := by
  unfold weigh
  refine (asks_look f).bind fun l => ?_
  split
  · exact .pure l
  · exact (asks_look g).bind fun _ => .given _

theorem Tree.asks_find : ∀ t : Tree, Asks accessor (t.find accessor)
  | atom _ => .pure _
  | not t => (asks_find t).bind fun f => f.asks_look.bind fun _ => .pure _
  | binary op l r => (asks_find l).bind fun f => (asks_find r).bind fun g => (f.asks_weigh op g).bind fun _ => .pure _

/-! ## One operator at the top -/

namespace Tree

theorem inquire_binary {op : Operator} {l r : Tree} (source : String) (h : (binary op l r).Proper) :
    ((binary op l r).predicate source).inquire accessor =
      l.find accessor >>= fun f => r.find accessor >>= fun g => f.weigh accessor op g := by
  rw [inquire_predicate source h, find_binary, bind_assoc]
  refine bind_congr fun f => ?_
  rw [bind_assoc]
  refine bind_congr fun g => ?_
  rw [bind_assoc]
  exact bind_pure _

/-- The steps of a tree without an operator are those of a single condition. -/
theorem eq_atom_of_postOrder {t : Tree} {n : Nat} (h : ∀ op, Step.apply op ∉ t.postOrder n) : ∃ a, t = atom a := by
  cases t with
  | atom a => exact ⟨a, rfl⟩
  | not t => exact absurd (List.mem_append_right _ (List.mem_singleton.2 rfl)) (h .not)
  | binary op l r => exact absurd (List.mem_append_right _ (List.mem_singleton.2 rfl)) (h op)

end Tree
end ShotTally.Rule
