/-
Slices read back from their text. A text has two bounds, either of which may be left out, and a step unless it is one.
It is read back to its slice whenever the step is not zero and the numbers are held in words.
-/
import ShotTally.Proofs.Slice.Progression
import ShotTally.Slice.Trailing

namespace ShotTally

open Text

namespace AxisSlice

/-! ## The text of a slice -/

/-- A bound as it is written. -/
def boundText (b : Option Int) : List Char := (b.map intDigits).getD []

theorem bound_boundText (b : Option Int) : Bound b (boundText b) := by
  have hblanks : Blanks [] := fun c hc => absurd hc List.not_mem_nil
  cases b with
  | none => exact hblanks
  | some i => exact ⟨[], intDigits i, [], hblanks, hblanks, integerText_intDigits i, by simp [boundText]⟩

/-- The step as it is written: one is left out. -/
def writtenStep (s : AxisSlice) : Option Int := if s.step = 1 then none else some s.step

theorem writtenStep_getD (s : AxisSlice) : s.writtenStep.getD 1 = s.step := by
  unfold writtenStep
  split
  · exact (‹s.step = 1›).symm
  · rfl

theorem writtenStep_all (s : AxisSlice) : s.writtenStep.all isInt64 = isInt64 s.step := by
  unfold writtenStep
  split
  · rename_i hone
    rw [hone]
    rfl
  · rfl

/-- What the text of a slice says. -/
def phrase (s : AxisSlice) : Phrase := .range s.start s.stop s.writtenStep

theorem toList_text (s : AxisSlice) : s.text.toList =
    boundText s.start ++ ':' :: (boundText s.stop ++ if s.step = 1 then [] else ':' :: intDigits s.step) := by
  have hbound : ∀ b : Option Int, ((b.map intText).getD "").toList = boundText b := by
    rintro (_ | i)
    · rfl
    · exact String.toList_ofList
  unfold text
  simp only [String.toList_append, hbound, List.append_assoc]
  split
  · rfl
  · simp [intText]

theorem spells_text (s : AxisSlice) : s.phrase.Spells s.text.toList := by
  rw [toList_text, phrase, writtenStep]
  split
  · rw [List.append_nil]
    exact .range (bound_boundText s.start) (bound_boundText s.stop)
  · exact .stepped (bound_boundText s.start) (bound_boundText s.stop) (bound_boundText (some s.step))

/-! ## Reading back -/

theorem parse_text {s : AxisSlice} : parse s.text = .ok s ↔ s.Proper := by
  rw [parse_eq_ok, s.spells_text.read_range, writtenStep_getD, writtenStep_all]
  exact ⟨fun ⟨hstart, hstop, hheld, hne, _⟩ => ⟨hstart, hstop, hheld, hne⟩,
    fun h => ⟨h.start, h.stop, h.step, h.step_ne_zero, rfl⟩⟩

example : parse (text ⟨some (-3), none, -2⟩) = .ok ⟨some (-3), none, -2⟩ := by decide +kernel

end AxisSlice

namespace Slices

/-- A slice is read back from its text exactly when its step is not zero and its numbers are held in words, and a list
of slices is read back from their texts exactly when each of them is. -/
theorem parse_texts (s : AxisSlice) (axes : List AxisSlice) :
    (AxisSlice.parse s.text = .ok s ↔ s.Proper) ∧
    (parse (axes.map AxisSlice.text) = .ok ⟨axes⟩ ↔ ∀ s ∈ axes, s.Proper) := by
  refine ⟨AxisSlice.parse_text, ?_⟩
  have hparse : parse (axes.map AxisSlice.text) = .ok ⟨axes⟩ ↔
      (axes.map AxisSlice.text).mapM AxisSlice.parse = .ok axes := by
    unfold parse
    rw [bind_eq_ok]
    simp
  rw [hparse, mapM_eq_ok, List.forall₂_map_left_iff, List.forall₂_same]
  exact forall₂_congr fun s _ => AxisSlice.parse_text

/-- Slices that are read have steps, and their numbers are held in words. -/
theorem proper_of_parse {texts : List String} {s : Slices} (h : parse texts = .ok s) :
    ∀ slice ∈ s.axes, slice.Proper := by
  obtain ⟨axes, haxes, hs⟩ := bind_eq_ok.1 h
  cases hs
  intro slice hslice
  obtain ⟨text, -, htext⟩ := exists_of_mem_mapM haxes hslice
  exact AxisSlice.proper_of_read (AxisSlice.parse_eq_ok.1 htext)

end Slices
end ShotTally
