/-
Positions in an array. A position has one number for each axis, and its element is found among the elements by
going over the axes, the last one varying fastest. Lists of positions, one for each axis, pick the elements at all
their combinations, which are taken in the same order.
-/
import Mathlib.Data.List.Forall2
import Mathlib.Data.List.GetD
import ShotTally.Tensor.Gather

namespace ShotTally.Tensor

theorem volume_cons (n : Nat) (shape : List Nat) : volume (n :: shape) = n * volume shape := rfl

/-! ## Positions -/

/-- A number for each axis of a shape, below the length of the axis. -/
def Within (shape position : List Nat) : Prop := List.Forall₂ (· < ·) position shape

instance (shape position : List Nat) : Decidable (Within shape position) :=
  inferInstanceAs (Decidable (List.Forall₂ (· < ·) position shape))

/-- Where a position is among the elements: each of its numbers counts as often as there are elements in the
axes behind. -/
def offset : (shape position : List Nat) → Nat
  | _ :: shape, i :: position => i * volume shape + offset shape position
  | _, _ => 0

theorem offset_lt : ∀ {shape position : List Nat}, Within shape position → offset shape position < volume shape
  | [], [], _ => Nat.one_pos
  | n :: shape, i :: position, .cons hi h => by
    have hrest := offset_lt h
    have hmul : (i + 1) * volume shape ≤ n * volume shape := Nat.mul_le_mul_right _ hi
    rw [Nat.succ_mul] at hmul
    rw [volume_cons, offset]
    omega

/-- The first position of a shape. -/
def first (shape : List Nat) : List Nat := shape.map fun _ => 0

theorem offset_first : ∀ shape : List Nat, offset shape (first shape) = 0
  | [] => rfl
  | n :: shape => by
    show 0 * volume shape + offset shape (first shape) = 0
    rw [offset_first shape, Nat.zero_mul]

theorem within_first : ∀ {shape : List Nat}, 0 < volume shape → Within shape (first shape)
  | [], _ => .nil
  | _ :: _, h => .cons (Nat.pos_of_mul_pos_right h) (within_first (Nat.pos_of_mul_pos_left h))

/-! ## Lists of positions -/

/-- The position that lists of positions, one for each axis, have at a position. -/
def through (lists : List (List Nat)) (position : List Nat) : List Nat :=
  lists.zipWith (fun list i => list.getD i 0) position

/-- There is one list for each axis, and all its positions are on the axis. -/
def Suits (shape : List Nat) (lists : List (List Nat)) : Prop :=
  List.Forall₂ (fun list n => ∀ i ∈ list, i < n) lists shape

theorem within_through : ∀ {shape : List Nat} {lists : List (List Nat)} {position : List Nat}, Suits shape lists →
    Within (lists.map List.length) position → Within shape (through lists position)
  | [], [], [], _, _ => .nil
  | n :: shape, list :: lists, i :: position, .cons hlist h, .cons hi hposition => by
    refine .cons ?_ (within_through h hposition)
    show list.getD i 0 < n
    rw [List.getD_eq_getElem _ _ hi]
    exact hlist _ (List.getElem_mem hi)

theorem beyond_cons_eq_none {axis n : Nat} {shape positions : List Nat} {others : List (List Nat)} :
    beyond axis (n :: shape) (positions :: others) = none ↔
      (∀ i ∈ positions, i < n) ∧ beyond (axis + 1) shape others = none := by
  have hfind : positions.find? (fun i => decide (n ≤ i)) = none ↔ ∀ i ∈ positions, i < n := by
    rw [List.find?_eq_none]
    simp only [decide_eq_true_eq, Nat.not_le]
  rw [← hfind, beyond]
  cases positions.find? fun i => decide (n ≤ i) with
  | none => simp
  | some i => simp

/-- No position is beyond its axis. -/
theorem beyond_eq_none {shape : List Nat} {lists : List (List Nat)} (h : lists.length = shape.length) (axis : Nat) :
    beyond axis shape lists = none ↔ Suits shape lists := by
  induction lists generalizing shape axis with
  | nil =>
    obtain rfl := List.length_eq_zero_iff.1 h.symm
    exact iff_of_true rfl .nil
  | cons list lists ih =>
    cases shape with
    | nil => cases h
    | cons n shape => rw [beyond_cons_eq_none, ih (Nat.succ.inj h), Suits, Suits, List.forall₂_cons]

/-! ## Offsets -/

/-- Where the picked elements are among all elements. -/
def offsets : List Nat → List (List Nat) → List Nat
  | _ :: shape, positions :: others => positions.flatMap fun i => (offsets shape others).map (i * volume shape + ·)
  | _, _ => [0]

theorem length_offsets : ∀ {shape : List Nat} {lists : List (List Nat)}, lists.length = shape.length →
    (offsets shape lists).length = volume (lists.map List.length)
  | [], [], _ => rfl
  | n :: shape, list :: lists, h => by
    rw [offsets, List.length_flatMap]
    simp only [List.length_map, length_offsets (Nat.succ.inj h), List.map_const', List.sum_replicate_nat]
    rfl

/-- Blocks of one length, one after the other, are found by their number. -/
theorem getElem?_flatMap {β γ : Type} {f : β → List γ} {width : Nat} (h : ∀ x, (f x).length = width) {r : Nat}
    (hr : r < width) :
    ∀ (l : List β) (i : Nat), (l.flatMap f)[i * width + r]? = l[i]?.bind fun x => (f x)[r]?
  | [], _ => rfl
  | x :: l, 0 => by
    rw [Nat.zero_mul, Nat.zero_add, List.flatMap_cons, List.getElem?_append_left (by rwa [h])]
    rfl
  | x :: l, i + 1 => by
    have hskip : (i + 1) * width + r = (f x).length + (i * width + r) := by
      rw [h, Nat.succ_mul]
      omega
    rw [List.flatMap_cons, hskip, List.getElem?_append_right (Nat.le_add_right _ _), Nat.add_sub_cancel_left,
      getElem?_flatMap h hr l i]
    rfl

/-- The offsets of picked elements, in the order in which the positions of the picked array go. -/
theorem getElem?_offsets :
    ∀ {shape : List Nat} {lists : List (List Nat)} {position : List Nat}, lists.length = shape.length →
    Within (lists.map List.length) position →
    (offsets shape lists)[offset (lists.map List.length) position]? = some (offset shape (through lists position))
  | [], [], [], _, _ => rfl
  | n :: shape, list :: lists, i :: position, h, .cons hi hposition => by
    have hblock : ∀ i, ((offsets shape lists).map (i * volume shape + ·)).length =
        volume (lists.map List.length) := fun i => by
      rw [List.length_map, length_offsets (Nat.succ.inj h)]
    rw [offsets, List.map_cons, offset, getElem?_flatMap hblock (offset_lt hposition), List.getElem?_eq_getElem hi,
      Option.bind_some, List.getElem?_map, getElem?_offsets (Nat.succ.inj h) hposition, Option.map_some]
    simp only [through, List.zipWith_cons_cons, offset, List.getD_eq_getElem _ _ hi]

/-- Positions on the axes are at offsets among the elements. -/
theorem lt_of_mem_offsets : ∀ {shape : List Nat} {lists : List (List Nat)} {p : Nat}, Suits shape lists →
    p ∈ offsets shape lists → p < volume shape
  | [], [], p, _, hp => by
    rw [List.mem_singleton.1 hp]
    exact Nat.one_pos
  | n :: shape, list :: lists, p, .cons hlist h, hp => by
    obtain ⟨i, hi, hp⟩ := List.mem_flatMap.1 hp
    obtain ⟨q, hq, rfl⟩ := List.mem_map.1 hp
    have hlt := lt_of_mem_offsets h hq
    have hmul : (i + 1) * volume shape ≤ n * volume shape := Nat.mul_le_mul_right _ (hlist i hi)
    rw [Nat.succ_mul] at hmul
    rw [volume_cons]
    omega

end ShotTally.Tensor
