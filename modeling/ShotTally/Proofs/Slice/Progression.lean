/-
What a slice text selects. A single number selects that position, counted from the end if it is negative, and
nothing where the axis does not have it. A range is gone through from its start by its step, both bounds moved
onto the axis first, for as long as the stop is ahead: every position that comes up is selected, and the stop is
reached after finitely many steps.
-/
import ShotTally.Proofs.Slice.Reading
import ShotTally.Proofs.Slice.Walking

namespace ShotTally.AxisSlice

open Text

/-! ## What a phrase selects -/

/-- The positions that a phrase selects on an axis. -/
def Phrase.Selects (length : Nat) : Phrase → List Nat → Prop
  | .single i, l => l =
      if 0 ≤ i ∧ i < length then [i.toNat]
      else if -length ≤ i ∧ i < 0 then [(i + length).toNat]
      else []
  | .range start stop step, l =>
      Walk .unbounded (stopOn length (step.getD 1) stop) (step.getD 1) (startOn length (step.getD 1) start)
        (l.map Int.ofNat)

theorem eq_map_toNat {l : List Nat} {positions : List Int} (h : l.map Int.ofNat = positions) :
    l = positions.map Int.toNat := by
  rw [← h, List.map_map]
  exact (List.map_id l).symm

/-- A walk to the next position has one position. -/
theorem walk_next (i : Int) : Walk .unbounded (i + 1) 1 i [i] := by
  refine .visit ?_ (.reached ?_)
  · exact Int.lt_add_one_iff.2 (Int.le_refl i)
  · exact Int.lt_irrefl (i + 1)

theorem walk_none (i : Int) : Walk .unbounded i 1 i [] := .reached (Int.lt_irrefl i)

/-- Where the range of a single position stops: behind the last position of the axis there is no bound. -/
theorem stopOn_next (length : Nat) (i : Int) : stopOn length 1 (if i = -1 then none else some (i + 1)) =
    if i < 0 then max (i + length + 1) 0 else min (i + 1) length := by
  by_cases hlast : i = -1
  · rw [if_pos hlast, if_pos (by omega)]
    show (length : Int) = _
    omega
  · rw [if_neg hlast]
    show (if i + 1 < 0 then max (i + 1 + (length : Int)) 0 else min (i + 1) length) = _
    split <;> split <;> omega

/-- The positions of a walk from the bounds of a single number, none of which is beyond the axis. -/
theorem selects_single {i : Int} {length : Nat} {l : List Nat}
    (hwalk : Walk .unbounded
      (stopOn length 1 (if i = -1 then none else some (i + 1))) 1 (boundOn length 1 i) (l.map Int.ofNat)) :
    (Phrase.single i).Selects length l := by
  change Walk .unbounded (stopOn length 1 (if i = -1 then none else some (i + 1))) 1
    (if i < 0 then max (i + (length : Int)) 0 else min i length) (l.map Int.ofNat) at hwalk
  rw [stopOn_next] at hwalk
  simp only [Phrase.Selects]
  -- a negative position counts from the end; beyond either end nothing is selected
  by_cases hneg : i < 0
  · rw [if_pos hneg, if_pos hneg] at hwalk
    rw [if_neg (by omega)]
    by_cases hin : -length ≤ i
    · have hstart : max (i + length) 0 = i + length := by omega
      have hstop : max (i + length + 1) 0 = i + length + 1 := by omega
      rw [hstart, hstop] at hwalk
      rw [if_pos ⟨hin, hneg⟩]
      exact eq_map_toNat (hwalk.unique (walk_next (i + length)))
    · have hstart : max (i + length) 0 = 0 := by omega
      have hstop : max (i + length + 1) 0 = 0 := by omega
      rw [hstart, hstop] at hwalk
      rw [if_neg (by omega)]
      exact eq_map_toNat (hwalk.unique (walk_none 0))
  · rw [if_neg hneg, if_neg hneg] at hwalk
    by_cases hin : i < length
    · have hstart : min i (length : Int) = i := by omega
      have hstop : min (i + 1) (length : Int) = i + 1 := by omega
      rw [hstart, hstop] at hwalk
      rw [if_pos ⟨by omega, hin⟩]
      exact eq_map_toNat (hwalk.unique (walk_next i))
    · have hstart : min i (length : Int) = length := by omega
      have hstop : min (i + 1) (length : Int) = length := by omega
      rw [hstart, hstop] at hwalk
      rw [if_neg (by omega), if_neg (by omega)]
      exact eq_map_toNat (hwalk.unique (walk_none length))

theorem Phrase.step_slice (phrase : Phrase) : phrase.slice.step = phrase.step := by
  cases phrase <;> rfl

/-- The slice of a phrase selects what the phrase says. -/
theorem selects_slice {phrase : Phrase} {length : Nat} {l : List Nat}
    (hwalk : Walk .unbounded (stopOn length phrase.slice.step phrase.slice.stop) phrase.slice.step
      (startOn length phrase.slice.step phrase.slice.start) (l.map Int.ofNat)) : phrase.Selects length l := by
  cases phrase with
  | single i => exact selects_single hwalk
  | range start stop step => exact hwalk

/-- What is read as a slice has a step, and its numbers are held in words. -/
theorem proper_of_read {source : List Char} {s : AxisSlice} (h : read source = .ok s) : s.Proper := by
  obtain ⟨phrase, hspells⟩ := exists_phrase h
  obtain ⟨rfl, hstep⟩ := hspells.of_read h
  cases phrase with
  | range start stop step =>
    obtain ⟨hstart, hstop, hheld, hne, -⟩ := hspells.read_range.1 h
    refine ⟨hstart, hstop, ?_, hne⟩
    cases step with
    | none => exact (by decide : isInt64 1 = true)
    | some i => exact hheld
  | single i =>
    obtain ⟨hi⟩ := hspells
    unfold read at h
    rw [splitAt_of_notMem hi.colon_notMem] at h
    obtain ⟨bound, hbound, h⟩ := bind_eq_ok.1 h
    obtain ⟨hheld, rfl⟩ := hi.read.1 hbound
    -- the end of a single position is the next one, which is read only if it is a word
    refine ⟨hheld, ?_, (by decide : isInt64 1 = true), hstep⟩
    dsimp only at h
    rw [Phrase.slice]
    split
    · rfl
    · rename_i hlast
      rw [if_neg hlast] at h
      split at h
      · have hlow := isInt64_iff.1 hheld
        exact isInt64_iff.2 ⟨by omega, ‹_›⟩
      · cases h

theorem parse_eq_ok {source : String} {s : AxisSlice} : parse source = .ok s ↔ read source.toList = .ok s := by
  unfold parse
  cases read source.toList <;> simp [Except.mapError]

/-- A text that is read as a slice says a phrase, and without bounds on the numbers the slice selects what the phrase
says, in finitely many steps. In words it selects the same on an axis of a length that they hold, unless it
oversteps. -/
theorem parse_selects {source : String} {s : AxisSlice} (h : parse source = .ok s) (length : Nat) :
    (∃ phrase : Phrase, phrase.Spells source.toList) ∧ ∃ l, s.indices? .unbounded length = some l ∧
      (∀ phrase : Phrase, phrase.Spells source.toList →
        phrase.Selects length l ∧ (∀ i ∈ l, i < length) ∧
        (0 < phrase.step → l.Pairwise (· < ·)) ∧ (phrase.step < 0 → l.Pairwise (· > ·)) ∧ phrase.step ≠ 0) ∧
      ((length : Int) < int64End → ¬ s.Oversteps length → s.indices length = l) := by
  have hread := parse_eq_ok.1 h
  have hproper := proper_of_read hread
  obtain ⟨l, hwalk, hin, -, hindices⟩ := exists_indices_unbounded hproper.step_ne_zero length
  -- no position of the walk is below zero, so none is changed by leaving the sign out
  have hmap : (l.map Int.toNat).map Int.ofNat = l := by
    rw [List.map_map]
    conv_rhs => rw [← List.map_id l]
    exact List.map_congr_left fun i hi => Int.toNat_of_nonneg (hin i hi).1
  refine ⟨exists_phrase hread, l.map Int.toNat, hindices, fun phrase hspells => ?_, fun hlength hover => ?_⟩
  · obtain ⟨rfl, hstep⟩ := hspells.of_read hread
    rw [← hmap] at hwalk
    refine ⟨selects_slice hwalk, fun i hi => ?_, fun hpos => ?_, fun hneg => ?_, hstep⟩
    · obtain ⟨j, hj, rfl⟩ := List.mem_map.1 hi
      have hj' := hin j hj
      omega
    · exact (List.pairwise_map.1 (hwalk.pairwise_lt (by rwa [phrase.step_slice]))).imp Int.ofNat_lt.1
    · exact (List.pairwise_map.1 (hwalk.pairwise_gt (by rwa [phrase.step_slice]))).imp Int.ofNat_lt.1
  · exact indices_eq ((hproper.indices_words hlength hover).trans hindices)

/-- From the third position down to the one behind the first, two at a time. -/
theorem parse_selects_downwards : ∃ s, parse " 3:0 : -2" = .ok s ∧
    (Phrase.range (some 3) (some 0) (some (-2))).Selects 5 [3, 1] ∧ ¬ s.Oversteps 5 ∧ s.indices 5 = [3, 1] := by
  have h : parse " 3:0 : -2" = .ok ⟨some 3, some 0, -2⟩ := by decide +kernel
  have hdigit : ∀ c : Char, isDigit c = true → ∀ d ∈ [c], isDigit d = true := fun c hc => List.forall_mem_singleton.2 hc
  have hstart : Bound (some 3) [' ', '3'] :=
    ⟨[' '], ['3'], [], by decide, by decide, .plain (List.cons_ne_nil _ _) (hdigit '3' rfl), rfl⟩
  have hstop : Bound (some 0) ['0', ' '] :=
    ⟨[], ['0'], [' '], by decide, by decide, .plain (List.cons_ne_nil _ _) (hdigit '0' rfl), rfl⟩
  have hstep : Bound (some (-2)) [' ', '-', '2'] :=
    ⟨[' '], ['-', '2'], [], by decide, by decide, .minus (List.cons_ne_nil _ _) (hdigit '2' rfl), rfl⟩
  have hover : ¬ (⟨some 3, some 0, -2⟩ : AxisSlice).Oversteps 5 := by decide +kernel
  have hpositions : (⟨some 3, some 0, -2⟩ : AxisSlice).indices? .unbounded 5 = some [3, 1] := by decide +kernel
  obtain ⟨-, l, hl, hselects, hwords⟩ := parse_selects h 5
  obtain rfl := Option.some.inj (hl.symm.trans hpositions)
  exact ⟨_, h, (hselects _ (.stepped hstart hstop hstep)).1, hover, hwords (by decide) hover⟩

end ShotTally.AxisSlice
