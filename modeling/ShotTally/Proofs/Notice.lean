/-
Notices given once for each subject. Of the notices of a computation those are given whose subject has not had
one before, each subject at most once, and the watch remembers exactly the subjects that came up.
-/
import Mathlib.Data.List.Basic
import ShotTally.Notice

namespace ShotTally

/-! ## Subjects -/

namespace Notice

/-- The notice that a quantity of a file has no row for each shot. -/
def isNotPerShot (quantity file : String) : Notice → Bool
  | notPerShot q f _ _ => q == quantity && f == file
  | _ => false

/-- The notice that the period of a file is missing. -/
def isPeriodMissing (file : String) : Notice → Bool
  | sourcePeriodMissing _ f => f == file
  | _ => false

/-- The notice is given once for its subject. -/
def isWatched (n : Notice) : Bool := n.subject?.isSome

/-- The two kinds of subjects are kept apart, whatever the quantity and the dataset are called. -/
theorem split_ne_source_period (quantity dataset : String) : "split:" ++ quantity ≠ "source_period:" ++ dataset := by
  intro h
  have hchars := congrArg String.toList h
  simp at hchars

theorem subject_eq_split {n : Notice} {quantity file : String} :
    n.subject? = some (file, "split:" ++ quantity) ↔ n.isNotPerShot quantity file = true := by
  cases n with
  | notPerShot q f shape shots => simp [subject?, isNotPerShot, and_comm]
  | sourcePeriodMissing dataset f => simp [subject?, isNotPerShot, (split_ne_source_period quantity dataset).symm]
  | _ => simp [subject?, isNotPerShot]

theorem isPeriodMissing_iff {n : Notice} {file : String} :
    n.isPeriodMissing file = true ↔ ∃ dataset, n = .sourcePeriodMissing dataset file := by
  cases n <;> simp [isPeriodMissing]

theorem subject_eq_source_period {n : Notice} {dataset file : String} :
    n.subject? = some (file, "source_period:" ++ dataset) ↔ n = .sourcePeriodMissing dataset file := by
  cases n with
  | notPerShot q f shape shots => simp [subject?, split_ne_source_period q dataset]
  | sourcePeriodMissing d f => simp [subject?, and_comm]
  | _ => simp [subject?]

end Notice

/-! ## The watch -/

namespace Watch

variable {watch : Watch} {n : Notice} {subject : String × String}

theorem mem_after : subject ∈ watch.after n ↔ subject ∈ watch ∨ n.subject? = some subject := by
  unfold after
  cases hn : n.subject? with
  | none => simp
  | some s =>
    by_cases hs : s ∈ watch
    · have hmem : subject = s → subject ∈ watch := fun h => h ▸ hs
      simp only [List.contains_eq_mem, hs, decide_true, if_true, Option.some.injEq]
      exact ⟨.inl, fun h => h.elim id fun h => hmem h.symm⟩
    · simp [hs, eq_comm, or_comm]

/-- The watch remembers what it knew and the subjects that came up. -/
theorem mem_due (l : List Notice) :
    subject ∈ (watch.due l).2 ↔ subject ∈ watch ∨ ∃ n ∈ l, n.subject? = some subject := by
  induction l generalizing watch with
  | nil => simp [due]
  | cons n l ih =>
    show subject ∈ ((watch.after n).due l).2 ↔ _
    simp only [ih, mem_after, or_assoc, List.mem_cons, exists_eq_or_imp]

theorem due_append (watch : Watch) (l m : List Notice) :
    watch.due (l ++ m) = ((watch.due l).1 ++ ((watch.due l).2.due m).1, ((watch.due l).2.due m).2) := by
  induction l generalizing watch with
  | nil => rfl
  | cons n l ih =>
    simp only [List.cons_append, due, ih]
    split <;> rfl

/-- Only notices of the computation are given. -/
theorem mem_of_mem_due : ∀ {l : List Notice} {watch : Watch}, n ∈ (watch.due l).1 → n ∈ l
  | m :: l, watch, h => by
    simp only [due] at h
    split at h
    · rcases List.mem_cons.1 h with rfl | h
      · exact List.mem_cons_self
      · exact List.mem_cons_of_mem _ (mem_of_mem_due h)
    · exact List.mem_cons_of_mem _ (mem_of_mem_due h)

/-- A subject has one notice when it comes up for the first time, and none else. -/
theorem countP_due (subject : String × String) (l : List Notice) (watch : Watch) :
    (watch.due l).1.countP (fun n => n.subject? == some subject) =
      if subject ∉ watch ∧ ∃ n ∈ l, n.subject? = some subject then 1 else 0 := by
  induction l generalizing watch with
  | nil => simp [due]
  | cons n l ih =>
    have hrest := ih (watch.after n)
    simp only [mem_after] at hrest
    simp only [due, List.mem_cons, exists_eq_or_imp]
    by_cases hn : n.subject? = some subject
    -- the notice is given if its subject is new, and the others of the subject are not
    · have hdue : watch.isDue n = !watch.contains subject := by simp [isDue, hn]
      by_cases hmem : subject ∈ watch
      · simpa [hdue, hmem, hn] using hrest
      · simpa [hdue, hmem, hn] using hrest
    · have hcount : ∀ given : List Notice, (if watch.isDue n then n :: given else given).countP
          (fun n => n.subject? == some subject) = given.countP (fun n => n.subject? == some subject) := by
        intro given
        split <;> simp [hn]
      rw [hcount, hrest]
      simp [hn]

/-- Notices without a subject are always given. -/
theorem due_of_unwatched (watch : Watch) : ∀ {l : List Notice}, (∀ n ∈ l, n.subject? = none) → watch.due l = (l, watch)
  | [], _ => rfl
  | n :: l, h => by
    have hn : n.subject? = none := h n List.mem_cons_self
    have hafter : watch.after n = watch := by simp [after, hn]
    have hdue : watch.isDue n = true := by simp [isDue, hn]
    rw [due, hafter, due_of_unwatched watch fun m hm => h m (List.mem_cons_of_mem _ hm)]
    simp [hdue]

end Watch
end ShotTally
