/-
Going along an axis from a start to a stop. Without bounds on the numbers the stop is reached, and every position on
the way is on the axis. In words a step may lead beyond the greatest word. If none does, the positions are the same;
if one does, the next position taken up is beyond every axis.
-/
import Mathlib.Data.List.Nodup
import Mathlib.Data.List.Perm.Subperm
import ShotTally.Proofs.Number.Word
import ShotTally.Slice.Axis

namespace ShotTally.AxisSlice

open Text

/-! ## From a start to a stop -/

/-- A position from which the stop is still ahead, going up or going down. -/
def Before (stop step i : Int) : Prop := if 0 < step then i < stop else stop < i

/-- The positions that come up going on by a step for as long as the stop is ahead. The walk ends when the stop
is reached, so only a way that ends has positions. -/
inductive Walk (a : Arithmetic) (stop step : Int) : Int → List Int → Prop
  | reached {i : Int} (h : ¬ Before stop step i) : Walk a stop step i []
  | visit {i : Int} {rest : List Int} (h : Before stop step i) (hrest : Walk a stop step (a.signed (i + step)) rest) :
      Walk a stop step i (i :: rest)

theorem ahead_iff {stop step i : Int} : ahead stop step i = true ↔ Before stop step i := by
  unfold ahead Before
  split <;> exact decide_eq_true_iff

namespace Walk

variable {a : Arithmetic} {stop step i : Int} {l l' : List Int}

theorem unique (h : Walk a stop step i l) (h' : Walk a stop step i l') : l = l' := by
  induction h generalizing l' with
  | reached hn =>
    cases h' with
    | reached _ => rfl
    | visit hb _ => exact absurd hb hn
  | visit hb _ ih =>
    cases h' with
    | reached hn => exact absurd hb hn
    | visit _ hrest => rw [ih hrest]

/-- From each position on, a walk is the walk from there. -/
theorem exists_suffix (h : Walk a stop step i l) {j : Int} (hj : j ∈ l) : ∃ l', Walk a stop step j l' ∧ l' <:+ l := by
  induction h with
  | reached _ => cases hj
  | visit hb hrest ih =>
    rcases List.mem_cons.1 hj with rfl | hj
    · exact ⟨_, .visit hb hrest, List.suffix_refl _⟩
    · obtain ⟨l', hwalk, hsuffix⟩ := ih hj
      exact ⟨l', hwalk, hsuffix.trans (List.suffix_cons _ _)⟩

theorem before (h : Walk a stop step i l) : ∀ j ∈ l, Before stop step j := by
  induction h with
  | reached _ => simp
  | visit hb _ ih => exact List.forall_mem_cons.2 ⟨hb, ih⟩

/-- A walk that ends does not come to a position twice. -/
theorem nodup (h : Walk a stop step i l) : l.Nodup := by
  induction h with
  | reached _ => exact .nil
  | @visit i rest hb hrest ih =>
    refine List.nodup_cons.2 ⟨fun hi => ?_, ih⟩
    obtain ⟨l', hwalk, hsuffix⟩ := hrest.exists_suffix hi
    have hlen := hsuffix.length_le
    rw [hwalk.unique (.visit hb hrest), List.length_cons] at hlen
    omega

end Walk

/-- The loop takes up the positions of a walk, if it has as many steps as there are positions. -/
theorem visit_eq_some {a : Arithmetic} {stop step : Int} : ∀ {n : Nat} {i : Int} {taken : Array Nat} {r : List Nat},
    visit a stop step n i taken = some r ↔
      ∃ l, Walk a stop step i l ∧ l.length ≤ n ∧ r = taken.toList ++ l.map a.position
  | n, i, taken, r => by
    by_cases hb : Before stop step i
    · have hahead : ahead stop step i = true := ahead_iff.2 hb
      cases n with
      | zero =>
        rw [visit, if_pos hahead]
        refine iff_of_false (by simp) ?_
        rintro ⟨l, hwalk, hlen, -⟩
        cases hwalk with
        | reached hn => exact hn hb
        | visit _ _ => simp at hlen
      | succ n =>
        rw [visit, if_pos hahead, visit_eq_some]
        constructor
        · rintro ⟨l, hwalk, hlen, rfl⟩
          exact ⟨i :: l, .visit hb hwalk, Nat.succ_le_succ hlen, by simp⟩
        · rintro ⟨l, hwalk, hlen, rfl⟩
          cases hwalk with
          | reached hn => exact absurd hb hn
          | visit _ hrest => exact ⟨_, hrest, Nat.le_of_succ_le_succ hlen, by simp⟩
    -- at the end of the walk any count of steps will do
    · have hahead : ¬ ahead stop step i = true := fun h => hb (ahead_iff.1 h)
      have hnone : (∃ l, Walk a stop step i l ∧ l.length ≤ n ∧ r = taken.toList ++ l.map a.position) ↔
          r = taken.toList := by
        constructor
        · rintro ⟨l, hwalk, -, rfl⟩
          rw [hwalk.unique (.reached hb), List.map_nil, List.append_nil]
        · rintro rfl
          exact ⟨[], .reached hb, Nat.zero_le n, by simp⟩
      rw [hnone]
      cases n <;> rw [visit, if_neg hahead, Option.some.injEq, eq_comm]

/-! ## Without bounds -/

namespace Walk

variable {stop step i : Int} {l : List Int}

/-- A walk goes by whole steps. -/
theorem exists_steps (h : Walk .unbounded stop step i l) : ∀ j ∈ l, ∃ k : Nat, j = i + k * step := by
  induction h with
  | reached _ => simp
  | visit _ _ ih =>
    rintro j (_ | ⟨_, hj⟩)
    · exact ⟨0, by simp⟩
    · obtain ⟨k, rfl⟩ := ih j hj
      refine ⟨k + 1, ?_⟩
      rw [Arithmetic.signed]
      push_cast
      rw [Int.add_mul, Int.one_mul]
      omega

/-- Each position of a walk is one step or more behind those before it. -/
theorem pairwise (h : Walk .unbounded stop step i l) : l.Pairwise fun a b => ∃ k : Nat, b = a + step + k * step := by
  induction h with
  | reached _ => exact .nil
  | visit _ hrest ih => exact .cons hrest.exists_steps ih

theorem pairwise_lt (h : Walk .unbounded stop step i l) (hstep : 0 < step) : l.Pairwise (· < ·) := by
  refine h.pairwise.imp ?_
  rintro a _ ⟨k, rfl⟩
  have hpos : 0 ≤ (k : Int) * step := Int.mul_nonneg (by omega) (by omega)
  omega

theorem pairwise_gt (h : Walk .unbounded stop step i l) (hstep : step < 0) : l.Pairwise (· > ·) := by
  refine h.pairwise.imp ?_
  rintro a _ ⟨k, rfl⟩
  have hneg : (k : Int) * step ≤ 0 := Int.mul_nonpos_of_nonneg_of_nonpos (by omega) (by omega)
  omega

/-- The positions of a walk are between its start and its stop. -/
theorem between (h : Walk .unbounded stop step i l) {j : Int} (hj : j ∈ l) :
    if 0 < step then i ≤ j ∧ j < stop else stop < j ∧ j ≤ i := by
  have hb := h.before j hj
  obtain ⟨k, rfl⟩ := h.exists_steps j hj
  unfold Before at hb
  split <;> rename_i hstep
  · have hpos : 0 ≤ (k : Int) * step := Int.mul_nonneg (by omega) (by omega)
    rw [if_pos hstep] at hb
    omega
  · have hneg : (k : Int) * step ≤ 0 := Int.mul_nonpos_of_nonneg_of_nonpos (by omega) (by omega)
    rw [if_neg hstep] at hb
    omega

end Walk

/-- The stop is reached, within as many steps as there are positions on the way. -/
theorem exists_walk {stop step : Int} (hstep : step ≠ 0) : ∀ (n : Nat) (i : Int),
    (if 0 < step then stop - i else i - stop) ≤ n → ∃ l, Walk .unbounded stop step i l ∧ l.length ≤ n
  | n, i, h => by
    by_cases hb : Before stop step i
    · cases n with
      | zero =>
        unfold Before at hb
        split at h <;> simp_all <;> omega
      | succ n =>
        have hnext : (if 0 < step then stop - (i + step) else i + step - stop) ≤ n := by
          split at h <;> split <;> omega
        obtain ⟨l, hwalk, hlen⟩ := exists_walk hstep n (i + step) hnext
        exact ⟨i :: l, .visit hb hwalk, Nat.succ_le_succ hlen⟩
    · exact ⟨[], .reached hb, Nat.zero_le n⟩

/-! ## Bounds on an axis -/

/-- The position a bound comes to. Below zero it counts from the end; outside the axis it is moved to an end of
it, to 0 or the length going up, to -1 or the last position going down. -/
def boundOn (length : Nat) (step i : Int) : Int :=
  if i < 0 then max (i + length) (if 0 < step then 0 else -1)
  else min i (if 0 < step then length else length - 1)

def startOn (length : Nat) (step : Int) : Option Int → Int
  | some i => boundOn length step i
  | none => if 0 < step then 0 else length - 1

def stopOn (length : Nat) (step : Int) : Option Int → Int
  | some i => boundOn length step i
  | none => if 0 < step then length else -1

/-- Where positions start and stop on an axis: going up not below zero and not behind the axis, going down not behind
its last position and not below -1. -/
theorem startOn_stopOn_bounds (length : Nat) (step : Int) (start stop : Option Int) :
    if 0 < step then 0 ≤ startOn length step start ∧ stopOn length step stop ≤ length
    else startOn length step start < length ∧ -1 ≤ stopOn length step stop := by
  unfold startOn stopOn boundOn
  split <;> cases start <;> cases stop <;> simp_all <;> omega

/-- A slice with a step, of numbers that words hold. -/
structure Proper (s : AxisSlice) : Prop where
  start : s.start.all isInt64 = true
  stop : s.stop.all isInt64 = true
  step : isInt64 s.step = true
  step_ne_zero : s.step ≠ 0

variable {a : Arithmetic} {s : AxisSlice} {length : Nat}

/-- A bound comes to its position if it is counted from the end as without bounds on the numbers. -/
theorem place_eq {low high default : Int} {bound : Option Int} (h : low ≤ high)
    (hcount : ∀ i, bound = some i → i < 0 → a.signed (i + length) = i + length) :
    place a length low high default bound =
      some (bound.elim default fun i => max low (min high (if i < 0 then i + length else i))) := by
  cases bound with
  | none => rfl
  | some i =>
    rw [place, resolve, if_neg (Int.not_lt.2 h)]
    by_cases hneg : i < 0
    · rw [if_pos hneg, hcount i rfl hneg, Option.elim_some, if_pos hneg]
    · rw [if_neg hneg, Option.elim_some, if_neg hneg]

theorem ends_eq (hlength : a.signed length = length) (hlast : a.signed (length - 1) = length - 1)
    (hstart : ∀ i, s.start = some i → i < 0 → a.signed (i + length) = i + length)
    (hstop : ∀ i, s.stop = some i → i < 0 → a.signed (i + length) = i + length) :
    s.ends a (a.signed length) = some (startOn length s.step s.start, stopOn length s.step s.stop) := by
  unfold ends
  rw [hlength]
  by_cases hstep : 0 < s.step
  -- forwards the bounds are kept between 0 and the length
  · have hbound : ∀ i : Int,
        max 0 (min (length : Int) (if i < 0 then i + length else i)) = boundOn length s.step i := by
      intro i
      unfold boundOn
      rw [if_pos hstep, if_pos hstep]
      split <;> omega
    rw [if_pos hstep, place_eq (by omega) hstart, place_eq (by omega) hstop]
    simp only [hbound]
    cases s.start <;> cases s.stop <;> simp [startOn, stopOn, hstep]
  -- backwards they are one lower, so that -1 stands before the first
  · have hbound : ∀ i : Int,
        max (-1) (min (length - 1 : Int) (if i < 0 then i + length else i)) = boundOn length s.step i := by
      intro i
      unfold boundOn
      rw [if_neg hstep, if_neg hstep]
      split <;> omega
    rw [if_neg hstep, hlast]
    dsimp only
    rw [place_eq (by omega) hstart, place_eq (by omega) hstop]
    simp only [hbound]
    cases s.start <;> cases s.stop <;> simp [startOn, stopOn, hstep]

/-! ## The positions selected -/

/-- Positions are selected by a walk that ends, from the start to the stop. -/
theorem indices?_eq_some {r : List Nat} : s.indices? a length = some r ↔ ∃ start stop l,
    s.ends a (a.signed length) = some (start, stop) ∧ Walk a stop s.step start l ∧ l.length ≤ length + nat64End ∧
      r = l.map a.position := by
  unfold indices?
  simp only [Option.bind_eq_bind, Option.bind_eq_some_iff, Prod.exists, visit_eq_some, List.nil_append]
  constructor
  · rintro ⟨start, stop, hends, l, hwalk, hlen, rfl⟩
    exact ⟨start, stop, l, hends, hwalk, hlen, rfl⟩
  · rintro ⟨start, stop, l, hends, hwalk, hlen, rfl⟩
    exact ⟨start, stop, hends, l, hwalk, hlen, rfl⟩

theorem ends_unbounded (s : AxisSlice) (length : Nat) :
    s.ends .unbounded length = some (startOn length s.step s.start, stopOn length s.step s.stop) :=
  ends_eq (a := .unbounded) rfl rfl (fun _ _ _ => rfl) fun _ _ _ => rfl

/-- In words the start and the stop are the same for numbers that words hold. -/
theorem Proper.ends_words (h : s.Proper) (hlength : (length : Int) < int64End) :
    s.ends .words (Arithmetic.words.signed length) =
      some (startOn length s.step s.start, stopOn length s.step s.stop) := by
  have hheld : ∀ bound : Option Int, bound.all isInt64 = true → ∀ i, bound = some i → i < 0 →
      Arithmetic.words.signed (i + length) = i + length := by
    rintro _ hall i rfl hneg
    have hi := isInt64_iff.1 hall
    exact Arithmetic.signed_of_isInt64 (isInt64_iff.2 (by omega))
  have hpos : 0 < int64End := by decide
  refine ends_eq ?_ ?_ (hheld _ h.start) (hheld _ h.stop) <;>
    exact Arithmetic.signed_of_isInt64 (isInt64_iff.2 (by omega))

/-- Without bounds on the numbers positions are always selected, all of them on the axis. -/
theorem exists_indices_unbounded (hstep : s.step ≠ 0) (length : Nat) : ∃ l,
    Walk .unbounded (stopOn length s.step s.stop) s.step (startOn length s.step s.start) l ∧
      (∀ i ∈ l, 0 ≤ i ∧ i < length) ∧ l.length ≤ length ∧ s.indices? .unbounded length = some (l.map Int.toNat) := by
  have hbounds := startOn_stopOn_bounds length s.step s.start s.stop
  have hdistance : (if 0 < s.step then stopOn length s.step s.stop - startOn length s.step s.start
      else startOn length s.step s.start - stopOn length s.step s.stop) ≤ length := by
    split at hbounds <;> split <;> omega
  obtain ⟨l, hwalk, hlen⟩ := exists_walk hstep length _ hdistance
  refine ⟨l, hwalk, fun i hi => ?_, hlen, ?_⟩
  · have hbetween := hwalk.between hi
    split at hbetween <;> rename_i hpos <;> simp only [hpos, if_true, if_false] at hbounds <;> omega
  · exact indices?_eq_some.2 ⟨_, _, l, ends_unbounded s length, hwalk, by omega, rfl⟩

/-! ## Steps beyond the words -/

/-- Some selected position is so near to the greatest word that a step from it leads beyond. -/
def Oversteps (s : AxisSlice) (length : Nat) : Prop :=
  ∃ positions, s.indices? .unbounded length = some positions ∧ ∃ i ∈ positions, int64End ≤ i + s.step

instance (s : AxisSlice) (length : Nat) : Decidable (s.Oversteps length) :=
  decidable_of_iff (∃ i ∈ (s.indices? .unbounded length).getD [], int64End ≤ i + s.step) (by
    unfold Oversteps
    cases s.indices? .unbounded length <;> simp)

namespace Walk

variable {stop step i : Int} {l l' : List Int}

/-- In words the walk is the same if words hold what every step leads to. -/
theorem words (h : Walk .unbounded stop step i l) (hheld : ∀ j ∈ l, isInt64 (j + step) = true) :
    Walk .words stop step i l := by
  induction h with
  | reached hn => exact .reached hn
  | visit hb _ ih =>
    obtain ⟨hi, hrest⟩ := List.forall_mem_cons.1 hheld
    refine .visit hb ?_
    rw [Arithmetic.signed_of_isInt64 hi]
    exact ih hrest

/-- Where a step leads beyond the greatest word, the walk in words goes on below zero. -/
theorem exists_neg (h : Walk .unbounded stop step i l) (hwords : Walk .words stop step i l') (hstop : 0 ≤ stop)
    (hstep : 0 < step) (hheld : isInt64 step = true) (hfrom : 0 ≤ i) (hto : stop < int64End)
    (hover : ∃ j ∈ l, int64End ≤ j + step) : ∃ j ∈ l', j < 0 ∧ -int64End ≤ j := by
  have hword := isInt64_iff.1 hheld
  induction h generalizing l' with
  | reached _ => simp at hover
  | @visit i rest hb _ ih =>
    have hlt : i < stop := by rwa [Before, if_pos hstep] at hb
    cases hwords with
    | reached hn => exact absurd hb hn
    | visit _ hnext =>
      -- the step that goes over the end comes in again below zero, still before the stop
      by_cases hi : int64End ≤ i + step
      · rw [Arithmetic.signed_words_of_le hi (by omega)] at hnext
        have hneg : i + step - 2 * int64End < 0 := by omega
        cases hnext with
        | reached hn => exact absurd (by rw [Before, if_pos hstep]; omega) hn
        | visit _ _ => exact ⟨_, List.mem_cons_of_mem _ List.mem_cons_self, hneg, by omega⟩
      · rw [Arithmetic.signed_of_isInt64 (isInt64_iff.2 (by omega))] at hnext
        obtain ⟨j, hj, hover⟩ := hover
        have hrest : j ∈ rest := (List.mem_cons.1 hj).resolve_left fun heq => hi (heq ▸ hover)
        obtain ⟨k, hk, hneg⟩ := ih hnext (by simp only [Arithmetic.signed]; omega) ⟨j, hrest, hover⟩
        exact ⟨k, List.mem_cons_of_mem _ hk, hneg⟩

end Walk

/-- A slice that does not overstep selects the same positions in words. -/
theorem Proper.indices_words (h : s.Proper) (hlength : (length : Int) < int64End) (hover : ¬ s.Oversteps length) :
    s.indices? .words length = s.indices? .unbounded length := by
  obtain ⟨l, hwalk, hin, hlen, hindices⟩ := exists_indices_unbounded h.step_ne_zero length
  have hstep := isInt64_iff.1 h.step
  have hheld : ∀ j ∈ l, isInt64 (j + s.step) = true := by
    intro j hj
    have hj' := hin j hj
    refine isInt64_iff.2 ⟨by omega, Int.not_le.1 fun hle => hover ⟨_, hindices, j.toNat, List.mem_map_of_mem hj, ?_⟩⟩
    omega
  rw [hindices]
  refine indices?_eq_some.2
    ⟨_, _, l, h.ends_words hlength, hwalk.words hheld, by omega, List.map_congr_left fun j hj => ?_⟩
  have hj' := hin j hj
  exact (Arithmetic.position_of_nonneg hj'.1 (by omega)).symm

/-- A slice that oversteps selects in words a position beyond every axis, if it comes to an end at all. -/
theorem Proper.exists_beyond (h : s.Proper) (hlength : (length : Int) < int64End) (hover : s.Oversteps length)
    {r : List Nat} (hr : s.indices? .words length = some r) : ∃ i ∈ r, int64End ≤ i := by
  obtain ⟨l, hwalk, hin, -, hindices⟩ := exists_indices_unbounded h.step_ne_zero length
  obtain ⟨_, hpositions, i, hi, hle⟩ := hover
  obtain rfl := Option.some.inj (hindices.symm.trans hpositions)
  obtain ⟨j, hj, rfl⟩ := List.mem_map.1 hi
  have hj' := hin j hj
  have hbounds := startOn_stopOn_bounds length s.step s.start s.stop
  obtain ⟨start, stop, l', hends, hwords, -, rfl⟩ := indices?_eq_some.1 hr
  rw [h.ends_words hlength] at hends
  cases hends
  -- going down no step leads beyond the greatest word
  have hstep : 0 < s.step := by omega
  rw [if_pos hstep] at hbounds
  have hbetween := hwalk.between hj
  rw [if_pos hstep] at hbetween
  obtain ⟨k, hk, hneg, hge⟩ := hwalk.exists_neg hwords (by omega) hstep h.step hbounds.1 (by omega) ⟨j, hj, by omega⟩
  exact ⟨_, List.mem_map_of_mem hk, Arithmetic.le_position_of_neg hneg hge⟩

theorem indices_eq {r : List Nat} (h : s.indices? .words length = some r) : s.indices length = r := by
  rw [indices, h]
  rfl

/-- In words the slice comes to an end, and the positions it selects are on the axis. -/
structure Lands (s : AxisSlice) (length : Nat) : Prop where
  ends : s.indices? .words length = some (s.indices length)
  within : ∀ i ∈ s.indices length, i < length

/-- A slice stays on its axis unless it oversteps. -/
theorem Proper.lands_iff (h : s.Proper) (hlength : (length : Int) < int64End) :
    s.Lands length ↔ ¬ s.Oversteps length := by
  constructor
  · intro hlands hover
    obtain ⟨i, hi, hle⟩ := h.exists_beyond hlength hover hlands.ends
    have hlt := hlands.within i hi
    omega
  · intro hover
    obtain ⟨l, -, hin, -, hindices⟩ := exists_indices_unbounded h.step_ne_zero length
    have hwords := (h.indices_words hlength hover).trans hindices
    rw [← indices_eq hwords] at hwords
    refine ⟨hwords, fun i hi => ?_⟩
    rw [indices_eq ((h.indices_words hlength hover).trans hindices)] at hi
    obtain ⟨j, hj, rfl⟩ := List.mem_map.1 hi
    have hj' := hin j hj
    omega

/-! ## Positions in words -/

/-- Where a walk starts in words is a word. -/
theorem isInt64_of_ends {start stop : Int} (h : s.ends .words (Arithmetic.words.signed length) = some (start, stop)) :
    isInt64 start = true := by
  -- a bound that is given is kept between two words, and one that is not is a word itself
  have hplace : ∀ {low high default : Int} {bound : Option Int} {i : Int}, isInt64 low = true → isInt64 high = true →
      isInt64 default = true → place .words (Arithmetic.words.signed length) low high default bound = some i →
      isInt64 i = true := by
    intro low high default bound i hlow hhigh hdefault hi
    cases bound with
    | none =>
      cases hi
      exact hdefault
    | some position =>
      rw [place, resolve] at hi
      split at hi
      · cases hi
      · cases hi
        rw [isInt64_iff] at hlow hhigh ⊢
        omega
  unfold ends at h
  split at h <;> simp only [Option.bind_eq_bind, Option.bind_eq_some_iff, Option.pure_def, Option.some.injEq,
    Prod.mk.injEq] at h
  · obtain ⟨i, hi, j, -, rfl, -⟩ := h
    exact hplace (by decide) (Arithmetic.isInt64_signed_words _) (by decide) hi
  · obtain ⟨i, hi, j, -, rfl, -⟩ := h
    exact hplace (by decide) (Arithmetic.isInt64_signed_words _) (Arithmetic.isInt64_signed_words _) hi

theorem Walk.isInt64_of_mem {stop step i : Int} {l : List Int} (h : Walk .words stop step i l) (hi : isInt64 i = true) :
    ∀ j ∈ l, isInt64 j = true := by
  induction h with
  | reached _ => simp
  | visit _ _ ih => exact List.forall_mem_cons.2 ⟨hi, ih (Arithmetic.isInt64_signed_words _)⟩

/-- No position is selected twice, so on an axis there are no more of them than it has. -/
theorem Lands.length_le (h : s.Lands length) : (s.indices length).length ≤ length := by
  obtain ⟨start, stop, l, hends, hwalk, -, hl⟩ := indices?_eq_some.1 h.ends
  have hheld := hwalk.isInt64_of_mem (isInt64_of_ends hends)
  have hnodup : (s.indices length).Nodup := by
    rw [hl]
    exact List.Nodup.map_on
      (fun i hi j hj heq => Arithmetic.position_words_injOn (hheld i hi) (hheld j hj) heq) hwalk.nodup
  have hsubset : s.indices length ⊆ List.range length := fun i hi => List.mem_range.2 (h.within i hi)
  simpa using (List.subperm_of_subset hnodup hsubset).length_le

end ShotTally.AxisSlice
