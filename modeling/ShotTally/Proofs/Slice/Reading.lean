/-
How slices are written. A bound is a whole number between blanks, or nothing but blanks where there is
none. A slice is a single number, or two or three bounds with colons between them. What is read as a slice
is written in one of these ways, and is the slice that it says.
-/
import ShotTally.Proofs.Outcome
import ShotTally.Proofs.Text.Digits
import ShotTally.Proofs.Text.Split
import ShotTally.Slice.Axis

namespace ShotTally

open Text

/-! ## Characters of a bound -/

namespace Text

theorem isBlank_of_isDigit {c : Char} (h : isDigit c = true) : isBlank c = false := by
  have hrange := toNat_of_isDigit h
  exact isBlank_of_graphic (by omega)

theorem IntegerText.isBlank {cs : List Char} {i : Int} (h : IntegerText cs i) : ∀ c ∈ cs, Text.isBlank c = false := by
  intro c hc
  rcases h.mem hc with hd | rfl | rfl
  · exact isBlank_of_isDigit hd
  · decide
  · decide

theorem colon_notMem_of_blanks {l : List Char} (h : Blanks l) : ':' ∉ l := fun hc => absurd (h ':' hc) (by decide)

theorem IntegerText.colon_notMem {cs : List Char} {i : Int} (h : IntegerText cs i) : ':' ∉ cs := by
  intro hc
  rcases h.mem hc with hd | hs | hs
  · exact absurd hd (by decide)
  · exact absurd hs (by decide)
  · exact absurd hs (by decide)

end Text

namespace AxisSlice

/-! ## Bounds -/

/-- How a bound is written. -/
def Bound : Option Int → List Char → Prop
  | none, part => Blanks part
  | some i, part => ∃ left digits right, Blanks left ∧ Blanks right ∧ IntegerText digits i ∧
    part = left ++ digits ++ right

theorem Bound.colon_notMem {bound : Option Int} {part : List Char} (h : Bound bound part) : ':' ∉ part := by
  cases bound with
  | none => exact colon_notMem_of_blanks h
  | some i =>
    obtain ⟨left, digits, right, hleft, hright, htext, rfl⟩ := h
    simp [colon_notMem_of_blanks hleft, colon_notMem_of_blanks hright, htext.colon_notMem]

/-- A bound as written is read, if it is held in a word. -/
theorem bound?_of_bound {bound : Option Int} {part : List Char} (h : Bound bound part) :
    bound? part = if bound.all isInt64 then .ok bound else .error .notAnInteger := by
  cases bound with
  | none =>
    unfold bound?
    rw [strip_of_blanks h]
    rfl
  | some i =>
    obtain ⟨left, digits, right, hleft, hright, htext, rfl⟩ := h
    unfold bound?
    rw [strip_between hleft hright htext.isBlank]
    have hread := int64?_of_integerText htext
    cases digits with
    | nil => exact absurd rfl htext.ne_nil
    | cons d ds =>
      simp only [hread, Option.filter_some, Option.all_some]
      by_cases hi : isInt64 i = true
      · simp [hi]
      · simp [hi]

/-- What is read as a bound is written as one. -/
theorem bound_of_bound? {part : List Char} {bound : Option Int} (h : bound? part = .ok bound) : Bound bound part := by
  obtain ⟨left, right, hleft, hright, hpart⟩ := exists_strip part
  unfold bound? at h
  split at h
  · rename_i hnil
    cases h
    rw [hnil, List.append_nil] at hpart
    rw [hpart]
    exact fun c hc => (List.mem_append.1 hc).elim (hleft c) (hright c)
  · split at h
    · rename_i i hi
      cases h
      exact ⟨left, strip part, right, hleft, hright, (int64?_eq_some.1 hi).1, hpart⟩
    · cases h

theorem Bound.read {bound bound' : Option Int} {part : List Char} (h : Bound bound part) :
    bound? part = .ok bound' ↔ bound.all isInt64 = true ∧ bound' = bound := by
  rw [bound?_of_bound h]
  cases bound.all isInt64 <;> simp [eq_comm]

/-! ## Phrases -/

/-- What a text can say: a single position, or a range whose bounds and step may be left out. -/
inductive Phrase where
  | single (position : Int)
  | range (start stop step : Option Int)

namespace Phrase

/-- How a phrase is written. -/
inductive Spells : Phrase → List Char → Prop
  | single {i : Int} {text : List Char} (h : Bound (some i) text) : Spells (.single i) text
  | range {start stop : Option Int} {a b : List Char} (ha : Bound start a) (hb : Bound stop b) :
      Spells (.range start stop none) (a ++ ':' :: b)
  | stepped {start stop step : Option Int} {a b c : List Char} (ha : Bound start a) (hb : Bound stop b)
    (hc : Bound step c) :
      Spells (.range start stop step) (a ++ ':' :: (b ++ ':' :: c))

def step : Phrase → Int
  | .single _ => 1
  | .range _ _ step => step.getD 1

/-- The slice a phrase stands for; behind the position before the end there is no position to stop at. -/
def slice : Phrase → AxisSlice
  | .single i => ⟨some i, if i = -1 then none else some (i + 1), 1⟩
  | .range start stop step => ⟨start, stop, step.getD 1⟩

end Phrase

variable {source : List Char} {s : AxisSlice}

/-- A range as written is read exactly when its numbers are held in words and its step is not zero. -/
theorem Phrase.Spells.read_range {start stop step : Option Int}
    (h : (Phrase.range start stop step).Spells source) : read source = .ok s ↔
      start.all isInt64 = true ∧ stop.all isInt64 = true ∧ step.all isInt64 = true ∧ step.getD 1 ≠ 0 ∧
        s = ⟨start, stop, step.getD 1⟩ := by
  unfold read
  cases h with
  | range ha hb =>
    rw [splitAt_append ha.colon_notMem, splitAt_of_notMem hb.colon_notMem]
    simp only [bind_eq_ok, ha.read, hb.read, pure_eq_ok, Except.ok.injEq]
    constructor
    · rintro ⟨_, ⟨hstart, rfl⟩, _, ⟨hstop, rfl⟩, rfl⟩
      exact ⟨hstart, hstop, rfl, Int.one_ne_zero, rfl⟩
    · rintro ⟨hstart, hstop, -, -, rfl⟩
      exact ⟨_, ⟨hstart, rfl⟩, _, ⟨hstop, rfl⟩, rfl⟩
  | stepped ha hb hc =>
    rw [splitAt_append ha.colon_notMem, splitAt_append hb.colon_notMem, splitAt_of_notMem hc.colon_notMem]
    dsimp only
    rw [bind_eq_ok]
    simp only [hc.read]
    constructor
    · rintro ⟨_, ⟨hstep, rfl⟩, h⟩
      split at h
      · cases h
      · simp only [bind_eq_ok, ha.read, hb.read, pure_eq_ok, Except.ok.injEq] at h
        obtain ⟨_, ⟨hstart, rfl⟩, _, ⟨hstop, rfl⟩, rfl⟩ := h
        exact ⟨hstart, hstop, hstep, ‹_›, rfl⟩
    · rintro ⟨hstart, hstop, hstep, hne, rfl⟩
      refine ⟨step, ⟨hstep, rfl⟩, ?_⟩
      rw [if_neg hne, bound?_of_bound ha, bound?_of_bound hb, if_pos hstart, if_pos hstop]
      rfl

/-- What a phrase is read as. -/
theorem Phrase.Spells.of_read {phrase : Phrase} (h : phrase.Spells source) (hread : read source = .ok s) :
    s = phrase.slice ∧ phrase.step ≠ 0 := by
  cases phrase with
  | single i =>
    obtain ⟨hi⟩ := h
    unfold read at hread
    rw [splitAt_of_notMem hi.colon_notMem] at hread
    obtain ⟨bound, hbound, hread⟩ := bind_eq_ok.1 hread
    obtain ⟨-, rfl⟩ := hi.read.1 hbound
    refine ⟨?_, Int.one_ne_zero⟩
    dsimp only at hread
    split at hread
    · rename_i hlast
      cases hread
      rw [Phrase.slice, if_pos hlast]
    · rename_i hlast
      split at hread
      · cases hread
        rw [Phrase.slice, if_neg hlast]
      · cases hread
  | range start stop step =>
    obtain ⟨-, -, -, hne, rfl⟩ := h.read_range.1 hread
    exact ⟨rfl, hne⟩

/-- What is read as a slice is a phrase as written. -/
theorem exists_phrase (h : read source = .ok s) : ∃ phrase : Phrase, phrase.Spells source := by
  have hsource := intercalate_splitAt ':' source
  unfold read at h
  -- one part, two or three between the colons
  split at h
  · rename_i single hparts
    obtain ⟨bound, hbound, h⟩ := bind_eq_ok.1 h
    rw [hparts] at hsource
    obtain rfl : single = source := by simpa [List.intercalate] using hsource
    cases bound with
    | none => cases h
    | some i => exact ⟨.single i, .single (bound_of_bound? hbound)⟩
  · rename_i a b hparts
    obtain ⟨start, hstart, h⟩ := bind_eq_ok.1 h
    obtain ⟨stop, hstop, h⟩ := bind_eq_ok.1 h
    rw [hparts] at hsource
    obtain rfl : a ++ ':' :: b = source := by simpa [List.intercalate] using hsource
    exact ⟨.range start stop none, .range (bound_of_bound? hstart) (bound_of_bound? hstop)⟩
  · rename_i a b c hparts
    obtain ⟨step, hstep, h⟩ := bind_eq_ok.1 h
    dsimp only at h
    split at h
    · cases h
    · obtain ⟨start, hstart, h⟩ := bind_eq_ok.1 h
      obtain ⟨stop, hstop, h⟩ := bind_eq_ok.1 h
      rw [hparts] at hsource
      obtain rfl : a ++ ':' :: (b ++ ':' :: c) = source := by simpa [List.intercalate] using hsource
      exact ⟨.range start stop step, .stepped (bound_of_bound? hstart) (bound_of_bound? hstop) (bound_of_bound? hstep)⟩
  · cases h

end AxisSlice
end ShotTally
