/-
Computations that ask for columns. What they give does not depend on what was learnt before them, as
long as it came from the same accessor: a column is remembered as it was received, so having asked
for it earlier saves a question and changes nothing else. The value of a rule can therefore be
reasoned about without the inquiry, and the keywords asked for by comparing two runs.
-/
import ShotTally.Proofs.Keyed
import ShotTally.Proofs.Outcome
import ShotTally.Rule.Evaluation

namespace ShotTally.Rule.Predicate

variable {accessor : Accessor} {α β : Type}

/-! ## Running -/

theorem run_bind (x : Asking α) (f : α → Asking β) (q : Inquiry) : (x >>= f).run q =
    match x.run q with
    | (.ok a, q') => (f a).run q'
    | (.error e, q') => (.error e, q') := by
  show (match x.run q with | (r, q') => ExceptT.bindCont f r q') = _
  rcases x.run q with ⟨_ | _, _⟩ <;> rfl

theorem run_bind_ok {x : Asking α} {f : α → Asking β} {q q' : Inquiry} {a : α} (h : x.run q = (.ok a, q')) :
    (x >>= f).run q = (f a).run q' := by
  rw [run_bind, h]

theorem run_bind_error {x : Asking α} {f : α → Asking β} {q q' : Inquiry} {e : Failure}
    (h : x.run q = (.error e, q')) : (x >>= f).run q = (.error e, q') := by
  rw [run_bind, h]

theorem run_column_known {keyword : String} {q : Inquiry} {c : Column} (h : q.columns.lookup keyword = some c) :
    (column accessor keyword).run q = (.ok c, q) := by
  refine (run_bind_ok (x := (get : Asking Inquiry)) (q := q) rfl).trans ?_
  rw [h]
  rfl

theorem run_column_new {keyword : String} {q : Inquiry} (h : q.columns.lookup keyword = none) :
    (column accessor keyword).run q = match accessor keyword with
      | .ok c => (.ok c, ⟨(keyword, c) :: q.columns, q.asked ++ [keyword]⟩)
      | .error e => (.error e, ⟨q.columns, q.asked ++ [keyword]⟩) := by
  refine (run_bind_ok (x := (get : Asking Inquiry)) (q := q) rfl).trans ?_
  rw [h]
  refine (run_bind_ok (x := modify fun q : Inquiry => { q with asked := q.asked ++ [keyword] }) (q := q) rfl).trans ?_
  rcases accessor keyword with e | c <;> rfl

/-! ## Operators -/

/-- The mask of a binary operator on two operands: the right one is looked at only where the left one
does not settle the result. -/
def join (p : Predicate) (accessor : Accessor) (op : Operator) (left right : Slot) : Asking Mask := do
  let l ← p.resolve accessor left
  if settles op l then return l
  else
    let r ← p.resolve accessor right
    ExceptT.mk (pure (Mask.combine op l r))

theorem perform_not (p : Predicate) (operand : Slot) (rest : List Slot) :
    p.perform accessor (operand :: rest) (.apply .not) =
      p.resolve accessor operand >>= fun m => pure (.ready m.not :: rest) := rfl

theorem perform_binary (p : Predicate) {op : Operator} (hop : op ≠ .not) (right left : Slot) (rest : List Slot) :
    p.perform accessor (right :: left :: rest) (.apply op) =
      p.join accessor op left right >>= fun m => pure (.ready m :: rest) := by
  have h : p.perform accessor (right :: left :: rest) (.apply op) = (do
      let l ← p.resolve accessor left
      if settles op l then return .ready l :: rest
      else
        let r ← p.resolve accessor right
        let m ← ExceptT.mk (pure (Mask.combine op l r))
        return .ready m :: rest) := by
    cases op <;> first | rfl | exact absurd rfl hop
  rw [h]
  unfold join
  rw [bind_assoc]
  refine bind_congr fun l => ?_
  split
  · rw [pure_bind]
  · rw [bind_assoc]

/-- The mask of a program that has left one operand. -/
def conclude (p : Predicate) (accessor : Accessor) : List Slot → Asking Mask
  | [top] => p.resolve accessor top
  | _ => throw malformed

theorem inquire_of_steps {p : Predicate} (h : p.isTrivial = false) :
    p.inquire accessor = p.steps.foldlM (p.perform accessor) [] >>= p.conclude accessor := by
  unfold inquire
  rw [h]
  rfl

/-! ## Computations that only ask -/

/-- Built from outcomes already known and from questions for columns. -/
inductive Asks (accessor : Accessor) : {α : Type} → Asking α → Prop
  | given {α : Type} (o : Outcome α) : Asks accessor (ExceptT.mk (pure o))
  | column (keyword : String) : Asks accessor (Predicate.column accessor keyword)
  | bind {α β : Type} {x : Asking α} {f : α → Asking β} (hx : Asks accessor x) (hf : ∀ a, Asks accessor (f a)) :
      Asks accessor (x >>= f)

namespace Asks

theorem pure (a : α) : Asks accessor (Pure.pure a) := given (.ok a)

theorem throw (e : Failure) : Asks accessor (throw e : Asking α) := given (.error e)

theorem resolve (p : Predicate) : ∀ s : Slot, Asks accessor (p.resolve accessor s)
  | .ready m => pure m
  | .pending i => by
    simp only [Predicate.resolve]
    cases p.atoms[i]? with
    | none => exact throw _
    | some a => exact (column a.keyword).bind fun c => given (a.onColumn c)

theorem join (p : Predicate) (op : Operator) (left right : Slot) : Asks accessor (p.join accessor op left right) := by
  unfold Predicate.join
  refine (resolve p left).bind fun l => ?_
  split
  · exact pure l
  · exact (resolve p right).bind fun r => given _

theorem perform (p : Predicate) (stack : List Slot) (s : Step) : Asks accessor (p.perform accessor stack s) := by
  unfold Predicate.perform
  split
  · exact pure _
  · split
    · exact (resolve p _).bind fun m => pure _
    · exact throw _
  · split
    · refine (resolve p _).bind fun l => ?_
      split
      · exact pure _
      · exact (resolve p _).bind fun r => (given _).bind fun m => pure _
    · exact throw _

theorem performAll (p : Predicate) : ∀ (steps : List Step) (stack : List Slot),
    Asks accessor (steps.foldlM (p.perform accessor) stack)
  | [], stack => pure stack
  | s :: steps, stack => by
    rw [List.foldlM_cons]
    exact (perform p stack s).bind fun stack => performAll p steps stack

theorem conclude (p : Predicate) (stack : List Slot) : Asks accessor (p.conclude accessor stack) := by
  unfold Predicate.conclude
  split
  · exact resolve p _
  · exact throw _

theorem inquire (p : Predicate) : Asks accessor (p.inquire accessor) := by
  cases h : p.isTrivial with
  | true =>
    unfold Predicate.inquire
    rw [h]
    exact pure _
  | false =>
    rw [inquire_of_steps h]
    exact (performAll p p.steps []).bind fun stack => conclude p stack

end Asks

/-! ## What is learnt -/

/-- The columns received are those of the accessor, and were asked for. -/
def Inquiry.Faithful (accessor : Accessor) (q : Inquiry) : Prop :=
  ∀ keyword c, q.columns.lookup keyword = some c → accessor keyword = .ok c ∧ keyword ∈ q.asked

theorem faithful_start : Inquiry.start.Faithful accessor := by
  intro keyword c h
  cases h

/-- Every column received in one inquiry was received in the other, and every keyword asked for in the
one was asked for in the other. -/
structure Inquiry.Within (q r : Inquiry) : Prop where
  columns : ∀ keyword c, q.columns.lookup keyword = some c → ∃ d, r.columns.lookup keyword = some d
  asked : q.asked ⊆ r.asked

theorem start_within (q : Inquiry) : Inquiry.start.Within q := by
  constructor
  · intro keyword c h
    cases h
  · exact List.nil_subset _

/-- An inquiry that went on: nothing received is forgotten, and what was asked stays asked. -/
structure Inquiry.Onward (accessor : Accessor) (q r : Inquiry) : Prop where
  kept : q.Within r
  faithful : q.Faithful accessor → r.Faithful accessor

namespace Inquiry

theorem Within.refl (q : Inquiry) : q.Within q := ⟨fun _ c h => ⟨c, h⟩, List.Subset.refl _⟩

theorem Within.trans {q r s : Inquiry} (h : q.Within r) (g : r.Within s) : q.Within s := by
  constructor
  · intro keyword c hc
    obtain ⟨d, hd⟩ := h.columns keyword c hc
    exact g.columns keyword d hd
  · exact List.Subset.trans h.asked g.asked

theorem Onward.refl (q : Inquiry) : Onward accessor q q := ⟨.refl q, id⟩

theorem Onward.trans {q r s : Inquiry} (h : Onward accessor q r) (g : Onward accessor r s) : Onward accessor q s :=
  ⟨h.kept.trans g.kept, fun hq => g.faithful (h.faithful hq)⟩

/-- What is remembered after a column was received. -/
theorem lookup_received {keyword k : String} {c d : Column} {l : List (String × Column)}
    (h : ((keyword, c) :: l).lookup k = some d) : (k = keyword ∧ c = d) ∨ l.lookup k = some d := by
  rw [Keyed.lookup_cons] at h
  split at h
  · exact .inl ⟨‹_›, Option.some.inj h⟩
  · exact .inr h

/-- After a column was received, more is known. -/
theorem within_received (q : Inquiry) (keyword : String) (c : Column) :
    q.Within ⟨(keyword, c) :: q.columns, q.asked ++ [keyword]⟩ := by
  constructor
  · intro k d hd
    rw [Keyed.lookup_cons]
    split
    · exact ⟨c, rfl⟩
    · exact ⟨d, hd⟩
  · exact List.subset_append_left _ _

end Inquiry

open Inquiry

/-- A question goes onward. -/
theorem onward_column (keyword : String) (q : Inquiry) :
    Onward accessor q ((column accessor keyword).run q).2 := by
  cases hl : q.columns.lookup keyword with
  | some c =>
    rw [run_column_known hl]
    exact .refl q
  | none =>
    rw [run_column_new hl]
    cases ha : accessor keyword with
    | error e =>
      refine ⟨⟨(Within.refl q).columns, List.subset_append_left _ _⟩, fun hq k d hd => ?_⟩
      exact ⟨(hq k d hd).1, List.mem_append_left _ (hq k d hd).2⟩
    | ok c =>
      refine ⟨within_received q keyword c, fun hq k d hd => ?_⟩
      rcases lookup_received hd with ⟨rfl, rfl⟩ | hd
      · exact ⟨ha, List.mem_append_right _ (List.mem_singleton.2 rfl)⟩
      · exact ⟨(hq k d hd).1, List.mem_append_left _ (hq k d hd).2⟩

theorem Asks.onward {x : Asking α} (h : Asks accessor x) (q : Inquiry) : Onward accessor q (x.run q).2 := by
  induction h generalizing q with
  | given o => exact .refl q
  | column keyword => exact onward_column keyword q
  | @bind α β x f hx hf ihx ihf =>
    have hq := ihx q
    rcases hr : x.run q with ⟨e | a, q'⟩
    · rw [run_bind_error hr]
      rw [hr] at hq
      exact hq
    · rw [run_bind_ok hr]
      rw [hr] at hq
      exact hq.trans (ihf a q')

/-! ## Knowing more beforehand -/

/-- The outcome of a run from an inquiry that knew more, against the run from one that knew less: the
same is given, and nothing is asked beyond what the other run asks. What the other run asks, this one
asked too, or knew. -/
structure Spared (asked : List String) (less more : Outcome α × Inquiry) : Prop where
  outcome : more.1 = less.1
  within : less.2.Within more.2
  asked : ∀ k ∈ more.2.asked, k ∈ asked ∨ k ∈ less.2.asked

theorem spared_column (keyword : String) {q r : Inquiry} (hq : q.Faithful accessor) (hr : r.Faithful accessor)
    (hw : q.Within r) :
    Spared r.asked ((column accessor keyword).run q) ((column accessor keyword).run r) := by
  cases hl : q.columns.lookup keyword with
  | some c =>
    obtain ⟨d, hd⟩ := hw.columns keyword c hl
    -- both runs remember the column, which is the accessor's
    obtain rfl : c = d := Except.ok.inj ((hq keyword c hl).1.symm.trans (hr keyword d hd).1)
    rw [run_column_known hl, run_column_known hd]
    exact ⟨rfl, hw, fun k hk => .inl hk⟩
  | none =>
    cases hm : r.columns.lookup keyword with
    | some d =>
      obtain ⟨ha, hasked⟩ := hr keyword d hm
      rw [run_column_new hl, run_column_known hm, ha]
      refine ⟨rfl, ⟨fun k c hk => ?_, ?_⟩, fun k hk => .inl hk⟩
      · rcases lookup_received hk with ⟨rfl, rfl⟩ | hk
        · exact ⟨_, hm⟩
        · exact hw.columns k c hk
      · exact List.append_subset.2 ⟨hw.asked, List.cons_subset.2 ⟨hasked, List.nil_subset _⟩⟩
    | none =>
      have hboth : q.asked ++ [keyword] ⊆ r.asked ++ [keyword] :=
        List.append_subset.2 ⟨List.subset_append_of_subset_left _ hw.asked, List.subset_append_right _ _⟩
      have hmore : ∀ k ∈ r.asked ++ [keyword], k ∈ r.asked ∨ k ∈ q.asked ++ [keyword] := by
        intro k hk
        rcases List.mem_append.1 hk with hk | hk
        · exact .inl hk
        · exact .inr (List.mem_append_right _ hk)
      rw [run_column_new hl, run_column_new hm]
      cases ha : accessor keyword with
      | error e => exact ⟨rfl, ⟨hw.columns, hboth⟩, hmore⟩
      | ok c =>
        refine ⟨rfl, ⟨fun k d hk => ?_, hboth⟩, hmore⟩
        rcases lookup_received hk with ⟨rfl, rfl⟩ | hk
        · exact ⟨c, by rw [Keyed.lookup_cons, if_pos rfl]⟩
        · obtain ⟨d', hd'⟩ := hw.columns k d hk
          exact (within_received r keyword c).columns k d' hd'

theorem Asks.spared {x : Asking α} (h : Asks accessor x) {q r : Inquiry} (hq : q.Faithful accessor)
    (hr : r.Faithful accessor) (hw : q.Within r) : Spared r.asked (x.run q) (x.run r) := by
  induction h generalizing q r with
  | given o => exact ⟨rfl, hw, fun k hk => .inl hk⟩
  | column keyword => exact spared_column keyword hq hr hw
  | @bind α β x f hx hf ihx ihf =>
    -- the first part leaves two inquiries that answer alike; the second goes on from both
    have hs := ihx hq hr hw
    have hoq := hx.onward q
    have hor := hx.onward r
    rcases hxq : x.run q with ⟨o, q'⟩
    rcases hxr : x.run r with ⟨o', r'⟩
    rw [hxq, hxr] at hs
    rw [hxq] at hoq
    rw [hxr] at hor
    obtain rfl : o' = o := hs.outcome
    cases o' with
    | error e =>
      rw [run_bind_error hxq, run_bind_error hxr]
      exact ⟨rfl, hs.within, hs.asked⟩
    | ok a =>
      rw [run_bind_ok hxq, run_bind_ok hxr]
      have hs' := ihf a (hoq.faithful hq) (hor.faithful hr) hs.within
      refine ⟨hs'.outcome, hs'.within, fun k hk => ?_⟩
      rcases hs'.asked k hk with hk | hk
      · rcases hs.asked k hk with hk | hk
        · exact .inl hk
        · exact .inr (((hf a).onward q').kept.asked hk)
      · exact .inr hk

/-! ## Answers -/

/-- What a computation gives when nothing is known beforehand. -/
def answer (x : Asking α) : Outcome α := (x.run Inquiry.start).1

/-- The keywords a computation asks for when nothing is known beforehand, in order. -/
def questions (x : Asking α) : List String := (x.run Inquiry.start).2.asked

theorem evaluate_eq (p : Predicate) : p.evaluate accessor = answer (p.inquire accessor) := rfl

theorem asked_eq (p : Predicate) : p.asked accessor = questions (p.inquire accessor) := rfl

/-- From any inquiry with this accessor a computation gives its answer. -/
theorem Asks.run_eq_answer {x : Asking α} (h : Asks accessor x) {q : Inquiry} (hq : q.Faithful accessor) :
    (x.run q).1 = answer x :=
  (h.spared faithful_start hq (start_within q)).outcome

@[simp] theorem answer_given (o : Outcome α) : answer (ExceptT.mk (pure o)) = o := rfl

@[simp] theorem answer_pure (a : α) : answer (pure a) = .ok a := rfl

@[simp] theorem answer_throw (e : Failure) : answer (throw e : Asking α) = .error e := rfl

/-- The answer to a question is what the accessor says. -/
@[simp] theorem answer_column (keyword : String) : answer (column accessor keyword) = accessor keyword := by
  unfold answer
  rw [run_column_new rfl]
  cases accessor keyword <;> rfl

/-- The answers of computations one after the other are put together as outcomes are. -/
theorem Asks.answer_bind {x : Asking α} {f : α → Asking β} (hx : Asks accessor x) (hf : ∀ a, Asks accessor (f a)) :
    answer (x >>= f) = answer x >>= fun a => answer (f a) := by
  have ho := hx.onward Inquiry.start
  rcases hr : x.run Inquiry.start with ⟨e | a, q⟩
  · unfold answer
    rw [run_bind_error hr, hr]
    rfl
  · rw [hr] at ho
    have ha := (hf a).run_eq_answer (ho.faithful faithful_start)
    unfold answer at ha ⊢
    rw [run_bind_ok hr, hr, ha]
    rfl

end ShotTally.Rule.Predicate
