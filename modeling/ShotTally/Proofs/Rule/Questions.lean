/-
What a rule asks for. A postfix program, well formed or not, asks for no keyword twice, only for keywords of
the conditions it names, and for nothing once anything has failed. Which questions come, and what comes of
them, is settled by the answers to the questions before: accessors that answer alike what is asked lead
through the same evaluation, so nothing but the datasets a rule names has a say in its mask.
-/
import Mathlib.Data.List.Nodup
import ShotTally.Proofs.Rule.Asking

namespace ShotTally.Rule.Predicate

open Inquiry

variable {accessor accessor' : Accessor} {α β : Type}

/-! ## Each keyword once, and nothing after a failure -/

/-- An inquiry in which every question, put once, was answered. -/
structure Inquiry.Settled (accessor : Accessor) (q : Inquiry) : Prop where
  faithful : q.Faithful accessor
  nodup : q.asked.Nodup
  received : ∀ k ∈ q.asked, ∃ c, q.columns.lookup k = some c

/-- How an inquiry ends: all questions were answered, or the last one was refused and that is the outcome. -/
inductive Ended (accessor : Accessor) : Outcome α × Inquiry → Prop
  | settled {o : Outcome α} {q : Inquiry} : q.Settled accessor → Ended accessor (o, q)
  | refused {q : Inquiry} {k : String} {e : Failure} : q.Settled accessor → k ∉ q.asked → accessor k = .error e →
      Ended accessor (.error e, ⟨q.columns, q.asked ++ [k]⟩)

theorem settled_start : Inquiry.start.Settled accessor where
  faithful := faithful_start
  nodup := List.nodup_nil
  received := fun k hk => by cases hk

theorem Inquiry.Settled.notMem {q : Inquiry} (h : q.Settled accessor) {k : String} (hk : q.columns.lookup k = none) :
    k ∉ q.asked := by
  intro hasked
  obtain ⟨c, hc⟩ := h.received k hasked
  rw [hk] at hc
  cases hc

theorem Inquiry.Settled.nodup_concat {q : Inquiry} (h : q.Settled accessor) {k : String} (hk : k ∉ q.asked) :
    (q.asked ++ [k]).Nodup :=
  h.nodup.append (List.nodup_singleton k) (List.disjoint_singleton.2 hk)

/-- A question is put unless its answer is remembered. -/
theorem ended_column (keyword : String) {q : Inquiry} (hq : q.Settled accessor) :
    Ended accessor ((column accessor keyword).run q) := by
  cases hl : q.columns.lookup keyword with
  | some c =>
    rw [run_column_known hl]
    exact .settled hq
  | none =>
    have hnew := hq.notMem hl
    have hon : Onward accessor q ((column accessor keyword).run q).2 := onward_column keyword q
    rw [run_column_new hl] at hon ⊢
    -- a new keyword is refused, which ends the inquiry, or answered and remembered
    cases ha : accessor keyword with
    | error e => exact .refused hq hnew ha
    | ok c =>
      rw [ha] at hon
      refine .settled ⟨hon.faithful hq.faithful, ?_, fun k hk => ?_⟩
      · exact hq.nodup_concat hnew
      · rcases List.mem_append.1 hk with hk | hk
        · obtain ⟨d, hd⟩ := hq.received k hk
          exact (within_received q keyword c).columns k d hd
        · obtain rfl := List.mem_singleton.1 hk
          exact ⟨c, by rw [Keyed.lookup_cons, if_pos rfl]⟩

theorem Asks.ended {x : Asking α} (h : Asks accessor x) {q : Inquiry} (hq : q.Settled accessor) :
    Ended accessor (x.run q) := by
  induction h generalizing q with
  | given o => exact .settled hq
  | column keyword => exact ended_column keyword hq
  | @bind α β x f hx hf ihx ihf =>
    have hend := ihx hq
    rcases hr : x.run q with ⟨e | a, r⟩
    · rw [hr] at hend
      rw [run_bind_error hr]
      cases hend with
      | settled hs => exact .settled hs
      | refused hs hk he => exact .refused hs hk he
    · -- a question that is refused gives nothing to go on with, so here all were answered
      rw [hr] at hend
      rw [run_bind_ok hr]
      cases hend with
      | settled hs => exact ihf a hs

namespace Ended

variable {r : Outcome α × Inquiry}

theorem nodup (h : Ended accessor r) : r.2.asked.Nodup := by
  cases h with
  | settled hs => exact hs.nodup
  | refused hs hk _ => exact hs.nodup_concat hk

/-- A question that was refused is the last one, and its failure the outcome. -/
theorem refused_last (h : Ended accessor r) {k : String} {e : Failure} (hk : k ∈ r.2.asked)
    (he : accessor k = .error e) :
    r.2.asked.getLast? = some k ∧ r.1 = .error e := by
  have hanswered : ∀ {q : Inquiry}, q.Settled accessor → k ∉ q.asked := by
    intro q hs hk
    obtain ⟨c, hc⟩ := hs.received k hk
    cases he.symm.trans (hs.faithful k c hc).1
  cases h with
  | settled hs => exact absurd hk (hanswered hs)
  | @refused q k' e' hs _ he' =>
    rcases List.mem_append.1 hk with hk | hk
    · exact absurd hk (hanswered hs)
    · obtain rfl := List.mem_singleton.1 hk
      obtain rfl := Except.error.inj (he.symm.trans he')
      exact ⟨List.getLast?_concat, rfl⟩

end Ended

/-- A step that fails ends the evaluation, and nothing is asked for after it. -/
theorem evaluate_of_steps {p : Predicate} {before after : List Step} (hsteps : p.steps = before ++ after) {e : Failure}
    {q : Inquiry} (h : (before.foldlM (p.perform accessor) []).run .start = (.error e, q)) :
    p.evaluate accessor = .error e ∧ p.asked accessor = q.asked := by
  have htrivial : p.isTrivial = false := by
    cases before with
    | nil => cases h
    | cons s before => rw [isTrivial, hsteps]; rfl
  have hrun : (p.inquire accessor).run .start = (.error e, q) := by
    rw [inquire_of_steps htrivial, hsteps, List.foldlM_append]
    exact run_bind_error (run_bind_error h)
  rw [evaluate, asked, hrun]
  exact ⟨rfl, rfl⟩

/-! ## Two accessors -/

/-- Two computations that are the same but for the accessor: they put the same questions, for keywords that are
`named`, as long as they get the same answers, and what they give satisfies a property. -/
inductive Paired (accessor accessor' : Accessor) (named : String → Prop) :
    {α : Type} → (α → Prop) → Asking α → Asking α → Prop
  | given {α : Type} {P : α → Prop} (o : Outcome α) (h : ∀ a, o = .ok a → P a) :
      Paired accessor accessor' named P (ExceptT.mk (pure o)) (ExceptT.mk (pure o))
  | column (keyword : String) (h : named keyword) : Paired accessor accessor' named (fun _ => True)
      (Predicate.column accessor keyword) (Predicate.column accessor' keyword)
  | bind {α β : Type} {P : α → Prop} {Q : β → Prop} {x x' : Asking α} {f f' : α → Asking β}
    (hx : Paired accessor accessor' named P x x')
      (hf : ∀ a, P a → Paired accessor accessor' named Q (f a) (f' a)) :
      Paired accessor accessor' named Q (x >>= f) (x' >>= f')

/-- The keyword of an operand, if it is a condition, is named. -/
def Slot.Named (p : Predicate) (named : String → Prop) : Slot → Prop
  | .ready _ => True
  | .pending i => ∀ a, p.atoms[i]? = some a → named a.keyword

namespace Paired

variable {named : String → Prop} {p : Predicate}

theorem pure {P : α → Prop} {a : α} (h : P a) : Paired accessor accessor' named P (Pure.pure a) (Pure.pure a) :=
  given (.ok a) fun _ hb => Except.ok.inj hb ▸ h

theorem throw {P : α → Prop} (e : Failure) : Paired accessor accessor' named P (throw e) (MonadExcept.throw e) :=
  given (.error e) fun _ hb => by cases hb

theorem resolve : ∀ {s : Slot}, s.Named p named →
    Paired accessor accessor' named (fun _ => True) (p.resolve accessor s) (p.resolve accessor' s)
  | .ready m, _ => pure trivial
  | .pending i, h => by
    simp only [Predicate.resolve]
    cases ha : p.atoms[i]? with
    | none => exact throw _
    | some a => exact (column a.keyword (h a ha)).bind fun c _ => given (a.onColumn c) fun _ _ => trivial

theorem join {left right : Slot} (op : Operator) (hl : left.Named p named) (hr : right.Named p named) :
    Paired accessor accessor' named (fun _ => True) (p.join accessor op left right)
      (p.join accessor' op left right) := by
  unfold Predicate.join
  refine (resolve hl).bind fun l _ => ?_
  by_cases hs : settles op l = true
  · rw [if_pos hs, if_pos hs]
    exact pure trivial
  · rw [if_neg hs, if_neg hs]
    exact (resolve hr).bind fun r _ => given _ fun _ _ => trivial

theorem perform {stack : List Slot} {s : Step} (hstack : ∀ slot ∈ stack, slot.Named p named)
    (hs : ∀ i, s = .atom i → (Slot.pending i).Named p named) : Paired accessor accessor' named
      (fun stack => ∀ slot ∈ stack, slot.Named p named) (p.perform accessor stack s) (p.perform accessor' stack s) := by
  cases s with
  | atom i => exact pure (List.forall_mem_cons.2 ⟨hs i rfl, hstack⟩)
  | apply op =>
    by_cases hop : op = .not
    · subst hop
      cases stack with
      | nil => exact throw _
      | cons operand rest =>
        obtain ⟨ho, hrest⟩ := List.forall_mem_cons.1 hstack
        rw [perform_not, perform_not]
        exact (resolve ho).bind fun m _ => pure (List.forall_mem_cons.2 ⟨trivial, hrest⟩)
    · match stack, hstack with
      -- with fewer than two operands both runs fail in the same way
      | [], _ | [_], _ => cases op <;> first | exact throw _ | exact absurd rfl hop
      | right :: left :: rest, hstack =>
        obtain ⟨hr, hstack⟩ := List.forall_mem_cons.1 hstack
        obtain ⟨hl, hrest⟩ := List.forall_mem_cons.1 hstack
        rw [perform_binary p hop, perform_binary p hop]
        exact (join op hl hr).bind fun m _ => pure (List.forall_mem_cons.2 ⟨trivial, hrest⟩)

theorem performAll : ∀ {steps : List Step} {stack : List Slot}, (∀ slot ∈ stack, slot.Named p named) →
    (∀ i, .atom i ∈ steps → (Slot.pending i).Named p named) → Paired accessor accessor' named
      (fun stack => ∀ slot ∈ stack, slot.Named p named) (steps.foldlM (p.perform accessor) stack)
        (steps.foldlM (p.perform accessor') stack)
  | [], _, hstack, _ => pure hstack
  | s :: steps, stack, hstack, hsteps => by
    rw [List.foldlM_cons, List.foldlM_cons]
    refine (perform hstack fun i hi => hsteps i (hi ▸ List.mem_cons_self)).bind fun stack' hstack' => ?_
    exact performAll hstack' fun i hi => hsteps i (List.mem_cons_of_mem _ hi)

theorem conclude {stack : List Slot} (hstack : ∀ slot ∈ stack, slot.Named p named) :
    Paired accessor accessor' named (fun _ => True) (p.conclude accessor stack) (p.conclude accessor' stack) := by
  match stack, hstack with
  | [], _ | _ :: _ :: _, _ => exact throw _
  | [top], hstack => exact resolve (hstack top List.mem_cons_self)

/-- The evaluation of a program with one accessor and with another. -/
theorem inquire (h : ∀ i, .atom i ∈ p.steps → (Slot.pending i).Named p named) :
    Paired accessor accessor' named (fun _ => True) (p.inquire accessor) (p.inquire accessor') := by
  cases ht : p.isTrivial with
  | true =>
    unfold Predicate.inquire
    rw [if_pos ht, if_pos ht]
    exact pure trivial
  | false =>
    rw [inquire_of_steps ht, inquire_of_steps ht]
    exact (performAll (fun _ hslot => by cases hslot) h).bind fun stack hstack => conclude hstack

variable {P : α → Prop} {x x' : Asking α}

/-- What is given has the property. -/
theorem result (h : Paired accessor accessor' named P x x') {q r : Inquiry} {a : α}
    (hr : x.run q = (.ok a, r)) : P a := by
  induction h generalizing q r with
  | given o ho => exact ho a (congrArg Prod.fst hr)
  | column keyword _ => trivial
  | @bind α β P Q x x' f f' hx hf ihx ihf =>
    obtain ⟨b, s, hb, ha⟩ := exists_of_run_bind hr
    exact ihf b (ihx hb) ha

/-- Whatever was asked stays asked, and only named keywords are asked for in addition. -/
theorem asked (h : Paired accessor accessor' named P x x') (q : Inquiry) :
    q.asked ⊆ (x.run q).2.asked ∧ ∀ k ∈ (x.run q).2.asked, k ∈ q.asked ∨ named k := by
  induction h generalizing q with
  | given o _ => exact ⟨List.Subset.refl _, fun k hk => .inl hk⟩
  | column keyword hnamed =>
    refine ⟨(onward_column keyword q).kept.asked, fun k hk => ?_⟩
    -- a column that was asked for before is not asked for again
    cases hl : q.columns.lookup keyword with
    | some c =>
      rw [run_column_known hl] at hk
      exact .inl hk
    | none =>
      have hasked : k ∈ q.asked ++ [keyword] := by
        rw [run_column_new hl] at hk
        cases ha : accessor keyword <;> simpa [ha] using hk
      rcases List.mem_append.1 hasked with hk | hk
      · exact .inl hk
      · exact .inr (List.mem_singleton.1 hk ▸ hnamed)
  | @bind α β P Q x x' f f' hx hf ihx ihf =>
    have hfirst := ihx q
    rcases hr : x.run q with ⟨e | a, r⟩
    · rw [hr] at hfirst
      rwa [run_bind_error hr]
    · have hrest := ihf a (hx.result hr) r
      rw [hr] at hfirst
      rw [run_bind_ok hr]
      refine ⟨List.Subset.trans hfirst.1 hrest.1, fun k hk => ?_⟩
      rcases hrest.2 k hk with hk | hk
      · exact hfirst.2 k hk
      · exact .inr hk

/-- With an accessor that answers alike all that is asked, an inquiry takes the same course. -/
theorem run_eq (h : Paired accessor accessor' named P x x') {q : Inquiry}
    (hagree : ∀ k ∈ (x.run q).2.asked, accessor' k = accessor k) : x'.run q = x.run q := by
  induction h generalizing q with
  | given o _ => rfl
  | column keyword _ =>
    cases hl : q.columns.lookup keyword with
    | some c => rw [run_column_known hl, run_column_known hl]
    | none =>
      have hasked : keyword ∈ ((Predicate.column accessor keyword).run q).2.asked := by
        rw [run_column_new hl]
        cases accessor keyword <;> simp
      rw [run_column_new hl, run_column_new hl, hagree keyword hasked]
  | @bind α β P Q x x' f f' hx hf ihx ihf =>
    rcases hr : x.run q with ⟨e | a, r⟩
    · rw [run_bind_error hr] at hagree
      have hfirst := ihx (by rwa [hr])
      rw [run_bind_error hr, run_bind_error (hfirst.trans hr)]
    · rw [run_bind_ok hr] at hagree
      have hfa := hf a (hx.result hr)
      -- what the first part asks stays asked, so the accessors agree on it too
      have hfirst := ihx fun k hk => hagree k ((hfa.asked r).1 (by rwa [hr] at hk))
      rw [run_bind_ok hr, run_bind_ok (hfirst.trans hr)]
      exact ihf a (hx.result hr) hagree

end Paired

/-! ## Rules -/

/-- The keywords of the conditions that a program names. -/
def named (p : Predicate) : List String := p.steps.filterMap fun s =>
  match s with
  | .atom i => p.atoms[i]?.map Atom.keyword
  | .apply _ => none

theorem named_pending {p : Predicate} {i : Nat} (h : .atom i ∈ p.steps) : (Slot.pending i).Named p (· ∈ p.named) := by
  intro a ha
  refine List.mem_filterMap.2 ⟨.atom i, h, ?_⟩
  dsimp only
  rw [ha]
  rfl

/-- A program asks for each keyword at most once, only for keywords of the conditions it names, and for nothing after a
question was refused or a step failed otherwise. With accessors that answer alike what is asked with one of them its
value and its questions are the same, so its mask depends on the columns of the named keywords alone. -/
theorem asks_named_once (p : Predicate) (accessor : Accessor) :
    (p.asked accessor).Nodup ∧ p.asked accessor ⊆ p.named ∧
    (∀ k ∈ p.asked accessor, ∀ e, accessor k = .error e → (p.asked accessor).getLast? = some k ∧
      p.evaluate accessor = .error e) ∧
    (∀ before after e q, p.steps = before ++ after →
      (before.foldlM (p.perform accessor) []).run .start = (.error e, q) →
      p.evaluate accessor = .error e ∧ p.asked accessor = q.asked) ∧
    (∀ accessor' : Accessor, (∀ k ∈ p.asked accessor, accessor' k = accessor k) →
      p.evaluate accessor' = p.evaluate accessor ∧ p.asked accessor' = p.asked accessor) ∧
    ∀ accessor' : Accessor, (∀ k ∈ p.named, accessor' k = accessor k) →
      ∀ shots, p.mask accessor' shots = p.mask accessor shots := by
  have hend : Ended accessor ((p.inquire accessor).run .start) := (Asks.inquire p).ended settled_start
  -- with another accessor the same steps are taken, so equal answers to the columns asked fix the run
  have hpaired : ∀ accessor',
    Paired accessor accessor' (· ∈ p.named) (fun _ => True) (p.inquire accessor) (p.inquire accessor') :=
    fun accessor' => Paired.inquire fun i hi => named_pending hi
  have hnamed : p.asked accessor ⊆ p.named := fun k hk => by
    rcases ((hpaired accessor).asked .start).2 k hk with hk | hk
    · cases hk
    · exact hk
  have hsame : ∀ accessor' : Accessor, (∀ k ∈ p.asked accessor, accessor' k = accessor k) →
      p.evaluate accessor' = p.evaluate accessor ∧ p.asked accessor' = p.asked accessor := by
    intro accessor' hagree
    have hrun := (hpaired accessor').run_eq hagree
    exact ⟨congrArg Prod.fst hrun, congrArg (·.2.asked) hrun⟩
  refine ⟨hend.nodup, hnamed, fun k hk e he => hend.refused_last hk he,
    fun _ _ _ _ hsteps => evaluate_of_steps hsteps, hsame, ?_⟩
  intro accessor' hagree shots
  rw [mask, mask, (hsame accessor' fun k hk => hagree k (hnamed hk)).1]

end ShotTally.Rule.Predicate
