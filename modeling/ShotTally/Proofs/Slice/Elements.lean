/-
Arrays element by element. Gathering lists of positions, and slicing, give at every position the element at the
position that the lists say. They fail only for lists that do not suit the axes, or for too many slices and slices
that overstep.
-/
import ShotTally.Proofs.Slice.Entries

namespace ShotTally

/-! ## Elements by position -/

namespace Tensor

variable {α : Type}

/-- The element at a position. -/
def element? (t : Tensor α) (position : List Nat) : Option α :=
  if Within t.shape position then t.data[offset t.shape position]? else none

/-- What is gathered, position by position. -/
structure Gathers (t : Tensor α) (lists : List (List Nat)) (g : Tensor α) : Prop where
  shape : g.shape = lists.map List.length
  wellFormed : g.WellFormed
  element : ∀ position, Within g.shape position →
    ∃ x, g.element? position = some x ∧ t.element? (through lists position) = some x

variable {t g : Tensor α} {lists : List (List Nat)}

/-- What is picked is what is gathered. -/
theorem gathers_of_pick (h : Suits t.shape lists) {picked : List α} (hpicked : pick t.shape lists t.data = .ok picked) :
    t.Gathers lists ⟨lists.map List.length, picked⟩ := by
  have hlen := h.length_eq
  have hsize := length_pick hlen hpicked
  refine ⟨rfl, hsize, fun position hposition => ?_⟩
  -- the entry at a position lies at its offset, and was taken from the offset of what it leads to
  have hplace := getElem?_offsets hlen hposition
  have hin : offset (lists.map List.length) position < picked.length := hsize ▸ offset_lt hposition
  have hout : picked[offset (lists.map List.length) position]? = some picked[offset (lists.map List.length) position] :=
    List.getElem?_eq_getElem hin
  refine ⟨picked[offset (lists.map List.length) position], ?_, ?_⟩
  · rw [element?, if_pos hposition]
    exact hout
  · rw [element?, if_pos (within_through h hposition)]
    obtain ⟨hplaces, hget⟩ := List.forall₂_iff_get.1 (takenAt_of_pick hlen hpicked)
    have hdata := hget _ (hplaces ▸ hin) hin
    rw [List.getElem?_eq_some_iff] at hplace
    obtain ⟨_, hplace⟩ := hplace
    simpa only [List.get_eq_getElem, hplace] using hdata

/-! ## Gathering -/

/-- Gathering fails only for lists that do not suit the axes. -/
theorem exists_gatherIn_iff (a : Arithmetic) (h : t.WellFormed) (lists : List (List Nat)) :
    (∃ g, t.gatherIn a lists = .ok g) ↔ Suits t.shape lists :=
  ⟨fun ⟨_, hg⟩ => suits_of_gatherIn hg, exists_gatherIn a (Nat.le_of_eq h.symm)⟩

theorem gathers_of_gatherIn (hg : t.gatherIn .unbounded lists = .ok g) : t.Gathers lists g := by
  have hsuits := suits_of_gatherIn hg
  rw [gatherIn_unbounded hsuits] at hg
  obtain ⟨picked, hpicked, rfl⟩ := map_eq_ok.1 hg
  exact gathers_of_pick hsuits hpicked

/-- In words everything is gathered exactly if they hold the number of elements that there are to gather. -/
theorem gathers_iff (h : t.WellFormed) (hsize : t.data.length < Text.nat64End) (hg : t.gather lists = .ok g) :
    t.Gathers lists g ↔ volume (lists.map List.length) < Text.nat64End := by
  have hsuits := suits_of_gatherIn hg
  constructor
  · intro hgathers
    -- no more elements are taken up than words count
    rw [gather, gatherIn_eq _ hsuits] at hg
    obtain ⟨xs, hxs, rfl⟩ := map_eq_ok.1 hg
    have hlen := (mapM_eq_ok.1 hxs).length_eq
    rw [List.length_take, length_offsets hsuits.length_eq] at hlen
    have hcount := Arithmetic.count_words_lt (volume (lists.map List.length))
    have hwf : xs.length = volume (lists.map List.length) := hgathers.wellFormed
    omega
  · intro hlists
    rw [gather_eq_pick hsuits (h ▸ hsize) hlists] at hg
    obtain ⟨picked, hpicked, rfl⟩ := map_eq_ok.1 hg
    exact gathers_of_pick hsuits hpicked

/-- An array is what is gathered from it at every position. -/
theorem WellFormed.gathers_self (h : t.WellFormed) : t.Gathers (t.shape.map List.range) t := by
  have hthrough : ∀ {shape position : List Nat}, Within shape position →
      through (shape.map List.range) position = position := by
    intro shape position hposition
    induction hposition with
    | nil => rfl
    | @cons i n _ _ hi _ ih =>
      show (List.range n).getD i 0 :: through _ _ = _
      rw [ih, List.getD_eq_getElem _ _ (by rwa [List.length_range]), List.getElem_range]
  refine ⟨by simp [Function.comp_def], h, fun position hposition => ?_⟩
  have hin : offset t.shape position < t.data.length := h ▸ offset_lt hposition
  refine ⟨t.data[offset t.shape position], ?_, ?_⟩
  · rw [element?, if_pos hposition, List.getElem?_eq_getElem hin]
  · rw [hthrough hposition, element?, if_pos hposition, List.getElem?_eq_getElem hin]

end Tensor

/-! ## Slicing -/

namespace Slices

open Tensor

variable {α : Type} {s : Slices} {t out : Tensor α}

/-- The positions taken along an axis: all of axis 0, and those of the slices along the axes after it, as far as
there are slices. -/
def along (s : Slices) : (axis length : Nat) → List Nat
  | 0, length => List.range length
  | k + 1, length => (s.axes[k]?.map fun slice => slice.indices length).getD (List.range length)

/-- The positions taken along each axis of a shape. -/
def lists (s : Slices) (shape : List Nat) : List (List Nat) := shape.mapIdx s.along

theorem positions_eq (axes : List AxisSlice) (shape : List Nat) : positions axes shape =
    shape.mapIdx fun k length => (axes[k]?.map fun slice => slice.indices length).getD (List.range length) := by
  induction shape generalizing axes with
  | nil => cases axes <;> rfl
  | cons n shape ih => cases axes <;> simp [positions, List.mapIdx_cons, ih]

theorem lists_cons (s : Slices) (n : Nat) (inner : List Nat) :
    s.lists (n :: inner) = List.range n :: positions s.axes inner := by
  rw [lists, List.mapIdx_cons, positions_eq]
  rfl

theorem lists_of_isEmpty (h : s.axes = []) (shape : List Nat) : s.lists shape = shape.map List.range := by
  cases shape with
  | nil => rfl
  | cons n inner => rw [lists_cons, h, positions_nil, List.map_cons]

theorem lists_innerShape (hle : s.axes.length ≤ t.rank - 1) (hne : s.axes ≠ []) :
    t.shape = t.rowCount :: t.innerShape ∧
    s.lists t.shape = List.range t.rowCount :: positions s.axes t.innerShape := by
  obtain ⟨_ | ⟨n, inner⟩, data⟩ := t
  · exact absurd (List.length_eq_zero_iff.1 (Nat.le_zero.1 hle)) hne
  · exact ⟨rfl, lists_cons s n inner⟩

/-- Slicing fails only when there are more slices than axes after axis 0 or a slice does not stay on its axis. -/
theorem exists_apply (h : t.WellFormed) (s : Slices) :
    (∃ out, s.apply t = .ok out) ↔ s.axes.length ≤ t.rank - 1 ∧ s.Lands t.innerShape := by
  by_cases hne : s.axes = []
  · rw [apply_of_isEmpty hne, hne]
    exact iff_of_true ⟨t, rfl⟩ ⟨Nat.zero_le _, lands_of_isEmpty hne _⟩
  · constructor
    · rintro ⟨out, hout⟩
      refine ⟨?_, lands_of_apply hout⟩
      by_contra hlt
      unfold apply at hout
      rw [if_neg (by simpa using hne), if_pos (by omega)] at hout
      cases hout
    · rintro ⟨hle, hlands⟩
      rw [apply_of_lands hne hle hlands]
      refine (exists_gatherIn_iff .words h _).2 ?_
      rw [(lists_innerShape hle hne).1]
      exact .cons (fun i hi => List.mem_range.1 hi) hlands.suits

/-- What slicing gives is gathered along the slices; it is not more than there was. -/
theorem gathers_of_apply (h : t.WellFormed) (hsize : t.data.length < Text.nat64End) (hout : s.apply t = .ok out) :
    t.Gathers (s.lists t.shape) out := by
  by_cases hne : s.axes = []
  · rw [apply_of_isEmpty hne] at hout
    cases hout
    rw [lists_of_isEmpty hne]
    exact h.gathers_self
  · obtain ⟨hle, hlands⟩ := (exists_apply h s).1 ⟨out, hout⟩
    obtain ⟨hshape, hlists⟩ := lists_innerShape hle hne
    rw [apply_of_lands hne hle hlands] at hout
    rw [hlists]
    -- a slice takes no position twice, so there are no more entries than before
    refine (gathers_iff h hsize hout).2 ?_
    have hvolume : t.data.length = t.rowCount * volume t.innerShape := by
      rw [h, hshape]
      rfl
    have hle := Nat.mul_le_mul_left t.rowCount (volume_positions_le hlands)
    rw [List.map_cons, volume_cons, List.length_range]
    omega

end Slices

end ShotTally
