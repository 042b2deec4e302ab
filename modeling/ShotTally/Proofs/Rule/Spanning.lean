/-
Masks that span the shots. As long as every column has one value for all shots or one for each, so has
every mask on the way: no two masks differ in length, and the program of a compiled rule never runs out
of operands. What is left to go wrong is a column that is not to be had, or a label that does not read as
a number.
-/
import ShotTally.Proofs.Rule.Settling
import ShotTally.Proofs.Shot.Arrays
import ShotTally.Shot.Accessor

namespace ShotTally

/-- The failure is a report of one of these families and codes. -/
def Failure.Among (codes : List (Family × String)) : Failure → Prop
  | .reported r => (r.family, r.code) ∈ codes
  | .outOfRange => False

instance (codes : List (Family × String)) : (e : Failure) → Decidable (e.Among codes)
  | .reported r => inferInstanceAs (Decidable ((r.family, r.code) ∈ codes))
  | .outOfRange => inferInstanceAs (Decidable False)

/-- A circumstance added to a report changes neither its family nor its code. -/
theorem Ends.within {α : Type} {x : Outcome α} {P : α → Prop} {codes : List (Family × String)}
    (h : Ends x P (Failure.Among codes)) (name value : String) :
    Ends (x.within name value) P (Failure.Among codes) := by
  rcases x with (r | _) | a
  · have hcode : (Failure.reported r).Among codes := ends_error.1 h
    exact ends_error.2 hcode
  · exact h
  · exact h

namespace Rule

open Predicate

variable {accessor : Accessor} {shots : Nat} {codes : List (Family × String)}

/-! ## Masks and columns -/

/-- One flag for all shots, or one for each. -/
def Mask.Spans (shots : Nat) : Mask → Prop
  | .constant _ => True
  | .flags values => values.length = shots

/-- One value for all shots, or one for each. -/
def Column.Spans (shots : Nat) (c : Column) : Prop := ∀ n, c.length? = some n → n = shots

theorem Mask.Spans.not {m : Mask} (h : m.Spans shots) : m.not.Spans shots := by
  cases m with
  | constant b => trivial
  | flags values => simpa [Mask.not, Spans] using h

/-- Masks that span the same shots can be combined, to one that spans them too. -/
theorem Mask.Spans.combine (op : Operator) {l r : Mask} (hl : l.Spans shots) (hr : r.Spans shots) :
    ∃ m, Mask.combine op l r = .ok m ∧ m.Spans shots := by
  cases l with
  | constant a =>
    cases r with
    | constant b => exact ⟨_, rfl, trivial⟩
    | flags values => exact ⟨_, rfl, by simpa [Spans] using hr⟩
  | flags values =>
    cases r with
    | constant b => exact ⟨_, rfl, by simpa [Spans] using hl⟩
    | flags values' =>
      have hlen : values.length = values'.length := Eq.trans hl (Eq.symm hr)
      refine ⟨.flags (values.zipWith op.onFlags values'), ?_, ?_⟩
      · simp [Mask.combine, hlen]
      · simpa [Spans, hlen] using hr

theorem Mask.Spans.toFlags {m : Mask} (h : m.Spans shots) :
    ∃ flags, m.toFlags shots = .ok flags ∧ flags.length = shots := by
  cases m with
  | constant b => exact ⟨_, rfl, List.length_replicate⟩
  | flags values => exact ⟨values, if_pos h, h⟩

/-! ## Conditions -/

/-- A condition on a label fails only where the label does not read as a number. -/
theorem Atom.ends_onLabel (a : Atom) (value : String) (hcode : (.rule, "text_not_numeric") ∈ codes) :
    Ends (a.onLabel value) (fun _ => True) (Failure.Among codes) := by
  unfold onLabel
  split
  · exact ends_ok.2 trivial
  · split
    · exact ends_ok.2 trivial
    · exact ends_error.2 hcode

theorem Atom.ends_onColumn (a : Atom) {c : Column} (hc : c.Spans shots) (hcode : (.rule, "text_not_numeric") ∈ codes) :
    Ends (a.onColumn c) (Mask.Spans shots) (Failure.Among codes) := by
  cases c with
  | numbers values => simpa [onColumn, Mask.Spans] using hc _ rfl
  | number x => exact ends_ok.2 trivial
  | labels values =>
    refine (Ends.mapM fun value _ => a.ends_onLabel value hcode).bind fun flags _ hflags => ?_
    exact ends_ok.2 (hflags.1.trans (hc _ rfl))
  | label x => exact (a.ends_onLabel x hcode).bind fun flag _ _ => ends_ok.2 trivial

/-! ## Trees -/

/-- The accessor has a column that spans the shots for every keyword, or fails in one of these ways. -/
def Accessor.Supplies (accessor : Accessor) (shots : Nat) (codes : List (Family × String)) : Prop :=
  ∀ keyword, Ends (accessor keyword) (Column.Spans shots) (Failure.Among codes)

/-- An operand that is a mask spans the shots. -/
def Finding.Spans (shots : Nat) : Finding → Prop
  | .unread _ => True
  | .known m => m.Spans shots

variable (hacc : accessor.Supplies shots codes) (hcode : (.rule, "text_not_numeric") ∈ codes)

include hacc hcode

theorem Finding.ends_look {f : Finding} (h : f.Spans shots) :
    Ends (answer (f.look accessor)) (Mask.Spans shots) (Failure.Among codes) := by
  cases f with
  | known m => exact ends_ok.2 h
  | unread a =>
    unfold look
    rw [(Asks.column a.keyword).answer_bind fun c => .given _, answer_column]
    exact (hacc a.keyword).bind fun c _ hc => a.ends_onColumn hc hcode

theorem Finding.ends_weigh (op : Operator) {f g : Finding} (hf : f.Spans shots) (hg : g.Spans shots) :
    Ends (answer (f.weigh accessor op g)) (Mask.Spans shots) (Failure.Among codes) := by
  have hright : ∀ l, Asks accessor (do
      let r ← g.look accessor
      ExceptT.mk (pure (Mask.combine op l r))) := fun l => g.asks_look.bind fun r => .given _
  unfold weigh
  rw [f.asks_look.answer_bind fun l => by split; exacts [.pure l, hright l]]
  refine (ends_look hacc hcode hf).bind fun l _ hl => ?_
  split
  · exact ends_ok.2 hl
  · rw [g.asks_look.answer_bind fun r => .given _]
    refine (ends_look hacc hcode hg).bind fun r _ hr => ?_
    obtain ⟨m, hm, hspans⟩ := hl.combine op hr
    rw [answer_given, hm]
    exact ends_ok.2 hspans

/-- What a tree leaves spans the shots. -/
theorem Tree.ends_find : ∀ t : Tree, Ends (answer (t.find accessor)) (Finding.Spans shots) (Failure.Among codes)
  | .atom a => ends_ok.2 trivial
  | .not t => by
    rw [find_not, t.asks_find.answer_bind fun f => f.asks_look.bind fun m => .pure _]
    refine (Tree.ends_find t).bind fun f _ hf => ?_
    rw [f.asks_look.answer_bind fun m => .pure _]
    exact (Finding.ends_look hacc hcode hf).bind fun m _ hm => ends_ok.2 hm.not
  | .binary op l r => by
    have hweigh : ∀ f g : Finding,
        Asks accessor (f.weigh accessor op g >>= fun m => pure (Finding.known m)) := fun f g =>
      (Finding.asks_weigh op f g).bind fun m => .pure _
    rw [find_binary, l.asks_find.answer_bind fun f => r.asks_find.bind fun g => hweigh f g]
    refine (Tree.ends_find l).bind fun f _ hf => ?_
    rw [r.asks_find.answer_bind fun g => hweigh f g]
    refine (Tree.ends_find r).bind fun g _ hg => ?_
    rw [(Finding.asks_weigh op f g).answer_bind fun m => .pure _]
    exact (Finding.ends_weigh hacc hcode op hf hg).bind fun m _ hm => ends_ok.2 hm

omit hacc hcode in
/-- A compiled rule selects every shot, or evaluates a tree. -/
theorem compiled_cases {rule : Option String} {p : Predicate} (h : compile rule = .ok p) :
    p.isTrivial = true ∨ ∃ t : Tree, t.Proper ∧ p = t.predicate (rule.getD "") := by
  have hsome : compile (some (rule.getD "")) = .ok p := by
    cases rule <;> exact h
  obtain ⟨ts, hts, hp⟩ := compile_eq_ok.1 hsome
  cases ts with
  | nil =>
    cases hp
    exact .inl rfl
  | cons t ts =>
    obtain ⟨tree, htree, hp⟩ := isRule_of_tokens hts hp
    exact .inr ⟨tree, htree.proper, hp⟩

/-- The flags of a compiled rule are one for each shot. -/
theorem Predicate.ends_mask {rule : Option String} {p : Predicate} (h : compile rule = .ok p) :
    Ends (p.mask accessor shots) (fun flags => flags.length = shots) (Failure.Among codes) := by
  have hevaluate : Ends (p.evaluate accessor) (Mask.Spans shots) (Failure.Among codes) := by
    rcases compiled_cases h with htrivial | ⟨t, ht, rfl⟩
    · unfold evaluate inquire
      rw [htrivial]
      exact ends_ok.2 trivial
    · rw [evaluate_eq, Tree.inquire_predicate _ ht, t.asks_find.answer_bind fun f => f.asks_look]
      exact (Tree.ends_find hacc hcode t).bind fun f _ hf => Finding.ends_look hacc hcode hf
  refine hevaluate.bind fun m _ hm => ?_
  obtain ⟨flags, hflags, hlen⟩ := hm.toFlags
  rw [hflags]
  exact ends_ok.2 hlen

end Rule

/-! ## Columns of a file -/

/-- The column of a dataset spans the shots of its file. -/
theorem ShotFile.ends_columnOf {codes : List (Family × String)} (hcode : (.rule, "keyword_shape") ∈ codes)
    (keyword path : String) (shots : Nat) (d : Dataset) :
    Ends (columnOf keyword path shots d) (Rule.Column.Spans shots) (Failure.Among codes) := by
  cases d with
  | numeric array =>
    simp only [columnOf]
    split
    · refine ends_ok.2 ?_
      rintro n ⟨⟩
    · split
      · rename_i hsize
        refine ends_ok.2 ?_
        rintro n ⟨⟩
        exact hsize.2
      · exact ends_error.2 hcode
  | text values =>
    simp only [columnOf]
    split
    · refine ends_ok.2 ?_
      rintro n ⟨⟩
      assumption
    · split
      · refine ends_ok.2 ?_
        rintro n ⟨⟩
      · exact ends_error.2 hcode

theorem ShotFile.supplies_accessor {codes : List (Family × String)} (file : ShotFile) (aliases : Aliases) (shots : Nat)
    (hshape : (.rule, "keyword_shape") ∈ codes) (hmissing : (.store, "missing_dataset") ∈ codes) :
    (file.accessor aliases shots).Supplies shots codes := by
  intro keyword
  unfold accessor
  dsimp only
  split
  · exact ends_columnOf hshape _ _ _ _
  · exact ends_error.2 hmissing

end ShotTally
