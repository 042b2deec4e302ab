/-
Text cut at a separator and text freed of blanks: the parts, put together again, are the text, and a
text put together from parts without separators is cut into these parts.
-/
import Mathlib.Data.List.TakeWhile
import ShotTally.Text.Blank
import ShotTally.Text.Split

namespace ShotTally.Text

/-! ## Parts -/

theorem splitAt_eq_splitOn (separator : Char) (l : List Char) : splitAt separator l = l.splitOn separator := by
  induction l with
  | nil => rfl
  | cons c l ih =>
    rw [splitAt, ih, List.splitOn_cons_eq_if_modifyHead]
    rcases hl : l.splitOn separator with _ | ⟨part, parts⟩
    · exact absurd hl (List.splitOn_ne_nil separator l)
    · by_cases hc : c = separator <;> simp [hc]

variable {separator : Char} {l : List Char}

theorem splitAt_of_notMem (h : separator ∉ l) : splitAt separator l = [l] := by
  rw [splitAt_eq_splitOn, List.splitOn_eq_singleton h]

theorem splitAt_separated (separator : Char) (l rest : List Char) :
    splitAt separator (l ++ separator :: rest) = splitAt separator l ++ splitAt separator rest := by
  simp only [splitAt_eq_splitOn]
  exact List.splitOnP_append_cons l rest (beq_self_eq_true separator)

theorem splitAt_append (h : separator ∉ l) (rest : List Char) :
    splitAt separator (l ++ separator :: rest) = l :: splitAt separator rest := by
  rw [splitAt_separated, splitAt_of_notMem h, List.singleton_append]

theorem intercalate_splitAt (separator : Char) (l : List Char) : [separator].intercalate (splitAt separator l) = l := by
  rw [splitAt_eq_splitOn, List.intercalate_splitOn]

theorem exists_splitAt (separator : Char) (l : List Char) : ∃ part rest, splitAt separator l = part :: rest := by
  rw [splitAt_eq_splitOn]
  exact List.exists_cons_of_ne_nil (List.splitOn_ne_nil separator l)

/-- No part has a separator in it. -/
theorem notMem_of_mem_splitAt {part : List Char} (h : part ∈ splitAt separator l) : separator ∉ part := by
  induction l generalizing part with
  | nil =>
    rw [List.mem_singleton.1 h]
    exact List.not_mem_nil
  | cons c l ih =>
    obtain ⟨first, rest, hsplit⟩ := exists_splitAt separator l
    rw [hsplit] at ih
    rw [splitAt, hsplit] at h
    dsimp only at h
    split at h
    · rcases List.mem_cons.1 h with rfl | h
      · exact List.not_mem_nil
      · exact ih h
    · rename_i hc
      rcases List.mem_cons.1 h with rfl | h
      · exact List.not_mem_cons_of_ne_of_not_mem (Ne.symm hc) (ih List.mem_cons_self)
      · exact ih (List.mem_cons_of_mem _ h)

/-! ## Blanks -/

/-- Nothing but blanks. -/
def Blanks (l : List Char) : Prop := ∀ c ∈ l, isBlank c = true

instance (l : List Char) : Decidable (Blanks l) := List.decidableBAll (fun c => isBlank c = true) l

/-- Letters, digits and signs of seven bits are not blank. -/
theorem isBlank_of_graphic {c : Char} (h : 0x21 ≤ c.toNat ∧ c.toNat ≤ 0x7e) : isBlank c = false := by
  simp only [isBlank, blankRanges, List.any_cons, List.any_nil, Bool.or_false, Bool.or_eq_false_iff,
    Bool.and_eq_false_iff, decide_eq_false_iff_not]
  omega

/-- A text is what is left of it without the blanks at either end, between blanks. -/
theorem exists_strip (l : List Char) : ∃ left right, Blanks left ∧ Blanks right ∧ l = left ++ strip l ++ right := by
  have hsplit : ∀ s : List Char, ∃ left, Blanks left ∧ s = left ++ s.dropWhile isBlank := fun s =>
    ⟨s.takeWhile isBlank, fun _ => List.mem_takeWhile_imp, (List.takeWhile_append_dropWhile).symm⟩
  obtain ⟨left, hleft, hl⟩ := hsplit l
  obtain ⟨right, hright, hr⟩ := hsplit (l.dropWhile isBlank).reverse
  refine ⟨left, right.reverse, hleft, fun c hc => hright c (List.mem_reverse.1 hc), ?_⟩
  have hback := congrArg List.reverse hr
  rw [List.reverse_reverse, List.reverse_append] at hback
  rw [List.append_assoc, strip, ← hback, ← hl]

theorem dropWhile_blanks {left : List Char} (h : Blanks left) (rest : List Char) :
    (left ++ rest).dropWhile isBlank = rest.dropWhile isBlank := by
  rw [List.dropWhile_append, List.dropWhile_eq_nil_iff.2 h, List.isEmpty_nil, if_pos rfl]

theorem dropWhile_of_noBlank {s : List Char} (h : ∀ c ∈ s, isBlank c = false) : s.dropWhile isBlank = s := by
  cases s with
  | nil => rfl
  | cons c s => rw [List.dropWhile_cons_of_neg (by simp [h c])]

/-- Blanks around a text without blanks are taken off. -/
theorem strip_between {left mid right : List Char} (hleft : Blanks left) (hright : Blanks right)
    (hmid : ∀ c ∈ mid, isBlank c = false) : strip (left ++ mid ++ right) = mid := by
  have hrev : Blanks right.reverse := fun c hc => hright c (List.mem_reverse.1 hc)
  have hmidRev : ∀ c ∈ mid.reverse, isBlank c = false := fun c hc => hmid c (List.mem_reverse.1 hc)
  unfold strip
  rw [List.append_assoc, dropWhile_blanks hleft]
  cases mid with
  | nil => rw [List.nil_append, List.dropWhile_eq_nil_iff.2 hright]; rfl
  | cons c mid =>
    rw [List.cons_append, List.dropWhile_cons_of_neg (by simp [hmid c]), ← List.cons_append, List.reverse_append,
      dropWhile_blanks hrev, dropWhile_of_noBlank hmidRev, List.reverse_reverse]

theorem strip_of_blanks (h : Blanks l) : strip l = [] := by
  rw [strip, List.dropWhile_eq_nil_iff.2 h]
  rfl

end ShotTally.Text
