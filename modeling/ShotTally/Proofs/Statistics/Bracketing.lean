/-
Items combined in any order and with any bracketing. Where combining two results gives the total of all items
behind them, and a total does not depend on the order of the items, every way to combine comes to the total.
-/
import Mathlib.Data.List.Perm.Basic
import ShotTally.Proofs.Outcome

namespace ShotTally

/-- A way to put some items into an order and parentheses around them. -/
inductive Bracketing (ι : Type)
  | item (i : ι)
  | both (left right : Bracketing ι)

variable {ι α ε : Type}

namespace Bracketing

/-- The items from left to right. -/
def items : Bracketing ι → List ι
  | .item i => [i]
  | .both left right => left.items ++ right.items

/-- What combining the values of the items comes to, inner parentheses first. -/
def result (value : ι → Except ε α) (combine : α → α → Except ε α) : Bracketing ι → Except ε α
  | .item i => value i
  | .both left right => do combine (← left.result value combine) (← right.result value combine)

end Bracketing

/-- What the values of such items and combining can produce. -/
inductive Produced (value : ι → Except ε α) (combine : α → α → Except ε α) (P : ι → Prop) : α → Prop
  | value {i : ι} {a : α} (hi : P i) (ha : value i = .ok a) : Produced value combine P a
  | combine {a b c : α} (ha : Produced value combine P a) (hb : Produced value combine P b) (hc : combine a b = .ok c) :
      Produced value combine P c

/-- Each item has the total of itself for its value, combining totals gives the total of the items of both, and
a total does not depend on the order of the items. -/
structure HasTotals (value : ι → Except ε α) (combine : α → α → Except ε α) (P : ι → Prop)
    (total : List ι → α) : Prop where
  value : ∀ i, P i → value i = .ok (total [i])
  combine : ∀ l m, (∀ i ∈ l, P i) → (∀ i ∈ m, P i) → combine (total l) (total m) = .ok (total (l ++ m))
  perm : ∀ l m, l.Perm m → total l = total m

namespace HasTotals

variable {value : ι → Except ε α} {combine : α → α → Except ε α} {P : ι → Prop} {total : List ι → α}

theorem result_eq (h : HasTotals value combine P total) : ∀ {t : Bracketing ι}, (∀ i ∈ t.items, P i) →
    t.result value combine = .ok (total t.items)
  | .item i, ht => h.value i (ht i (List.mem_singleton_self i))
  | .both left right, ht => by
    have hleft : ∀ i ∈ left.items, P i := fun i hi => ht i (List.mem_append_left _ hi)
    have hright : ∀ i ∈ right.items, P i := fun i hi => ht i (List.mem_append_right _ hi)
    rw [Bracketing.result, h.result_eq hleft, ok_bind, h.result_eq hright, ok_bind, h.combine _ _ hleft hright]
    rfl

/-- Every order and every bracketing come to the total. -/
theorem result_eq_of_perm (h : HasTotals value combine P total) {t : Bracketing ι} {l : List ι} (hl : ∀ i ∈ l, P i)
    (hperm : t.items.Perm l) : t.result value combine = .ok (total l) := by
  rw [h.result_eq fun i hi => hl i (hperm.mem_iff.1 hi), h.perm _ _ hperm]

/-- Combining group after group. -/
theorem foldlM_groups (h : HasTotals value combine P total) : ∀ {groups : List (List ι)} {before : List ι},
    (∀ i ∈ before ++ groups.flatten, P i) →
    (groups.map total).foldlM combine (total before) = .ok (total (before ++ groups.flatten))
  | [], before, _ => by
    rw [List.flatten_nil, List.append_nil]
    rfl
  | group :: groups, before, hP => by
    rw [List.flatten_cons, ← List.append_assoc] at hP
    have hnext : ∀ i ∈ before ++ group, P i := fun i hi => hP i (List.mem_append_left _ hi)
    rw [List.map_cons, List.foldlM_cons, h.combine _ _ (fun i hi => hnext i (List.mem_append_left _ hi))
      fun i hi => hnext i (List.mem_append_right _ hi), ok_bind, h.foldlM_groups hP, List.flatten_cons,
      List.append_assoc]

/-! ## What can be produced -/

theorem exists_items (h : HasTotals value combine P total) {a : α} (ha : Produced value combine P a) :
    ∃ l, (∀ i ∈ l, P i) ∧ a = total l := by
  induction ha with
  | @value i a hi ha =>
    have hlist : ∀ j ∈ [i], P j := fun j hj => List.mem_singleton.1 hj ▸ hi
    rw [h.value i hi] at ha
    exact ⟨[i], hlist, (Except.ok.inj ha).symm⟩
  | combine _ _ hc iha ihb =>
    obtain ⟨l, hl, rfl⟩ := iha
    obtain ⟨m, hm, rfl⟩ := ihb
    have hlist : ∀ i ∈ l ++ m, P i := fun i hi => (List.mem_append.1 hi).elim (hl i) (hm i)
    rw [h.combine l m hl hm] at hc
    exact ⟨l ++ m, hlist, (Except.ok.inj hc).symm⟩

variable {a b c : α}

/-- What can be produced can be combined, in either order with the same result. -/
theorem comm (h : HasTotals value combine P total) (ha : Produced value combine P a) (hb : Produced value combine P b) :
    ∃ ab, combine a b = .ok ab ∧ combine b a = .ok ab := by
  obtain ⟨l, hl, rfl⟩ := h.exists_items ha
  obtain ⟨m, hm, rfl⟩ := h.exists_items hb
  refine ⟨total (l ++ m), h.combine l m hl hm, ?_⟩
  rw [h.combine m l hm hl, h.perm _ _ List.perm_append_comm]

/-- Three results can be combined with either bracketing, with the same result. -/
theorem assoc (h : HasTotals value combine P total) (ha : Produced value combine P a) (hb : Produced value combine P b)
    (hc : Produced value combine P c) :
    ∃ ab bc abc, combine a b = .ok ab ∧ combine b c = .ok bc ∧ combine ab c = .ok abc ∧ combine a bc = .ok abc := by
  obtain ⟨l, hl, rfl⟩ := h.exists_items ha
  obtain ⟨m, hm, rfl⟩ := h.exists_items hb
  obtain ⟨o, ho, rfl⟩ := h.exists_items hc
  have hlm : ∀ i ∈ l ++ m, P i := fun i hi => (List.mem_append.1 hi).elim (hl i) (hm i)
  have hmo : ∀ i ∈ m ++ o, P i := fun i hi => (List.mem_append.1 hi).elim (hm i) (ho i)
  refine ⟨_, _, total (l ++ m ++ o), h.combine l m hl hm, h.combine m o hm ho, h.combine _ o hlm ho, ?_⟩
  rw [h.combine l _ hl hmo, List.append_assoc]

end HasTotals
end ShotTally
