/-
Slicing arrays row by row. When the positions that the slices select are on the axes, every row is sliced as
it would be alone, and none is moved, lost or repeated.
-/
import ShotTally.Proofs.Slice.Walking
import ShotTally.Proofs.Tensor.RowView
import ShotTally.Slice.Trailing

namespace ShotTally

open Tensor

/-! ## Positions on all axes -/

namespace Slices

theorem length_positions (axes : List AxisSlice) (shape : List Nat) : (positions axes shape).length = shape.length := by
  induction shape generalizing axes with
  | nil => cases axes <;> rfl
  | cons n shape ih => cases axes <;> simp [positions, ih]

/-- Every slice selects positions on its axis. -/
def Lands (s : Slices) (inner : List Nat) : Prop := ∀ p ∈ s.axes.zip inner, p.1.Lands p.2

theorem lands_of_isEmpty {s : Slices} (h : s.axes = []) (inner : List Nat) : s.Lands inner := by
  simp [Lands, h]

/-- Slices with a step that keep to words stay on axes of a length that words hold unless they overstep. -/
theorem lands_iff {s : Slices} {inner : List Nat} (hs : ∀ slice ∈ s.axes, slice.Proper)
    (hinner : ∀ n ∈ inner, (n : Int) < Text.int64End) :
    s.Lands inner ↔ ∀ p ∈ s.axes.zip inner, ¬ p.1.Oversteps p.2 := by
  refine forall₂_congr fun p hp => ?_
  obtain ⟨hslice, hn⟩ := List.of_mem_zip (a := p.1) (b := p.2) hp
  exact (hs _ hslice).lands_iff (hinner _ hn)

/-- Axes without a slice have all their positions. -/
theorem suits_positions : ∀ {axes : List AxisSlice} {shape : List Nat},
    Suits shape (positions axes shape) ↔ ∀ p ∈ axes.zip shape, ∀ i ∈ p.1.indices p.2, i < p.2
  | [], [] => iff_of_true .nil (by simp)
  | _ :: _, [] => iff_of_true .nil (by simp)
  | [], n :: shape =>
    iff_of_true (.cons (fun i hi => List.mem_range.1 hi) ((@suits_positions [] shape).2 (by simp))) (by simp)
  | s :: axes, n :: shape => by
    rw [List.zip_cons_cons, List.forall_mem_cons, ← suits_positions]
    exact List.forall₂_cons

theorem Lands.suits {s : Slices} {inner : List Nat} (h : s.Lands inner) : Suits inner (positions s.axes inner) :=
  suits_positions.2 fun p hp => (h p hp).within

/-- Positions on the axes are not more than the axes have. -/
theorem volume_positions_le : ∀ {axes : List AxisSlice} {shape : List Nat}, (∀ p ∈ axes.zip shape, p.1.Lands p.2) →
    volume ((positions axes shape).map List.length) ≤ volume shape
  | [], [], _ => Nat.le_refl 1
  | _ :: _, [], _ => Nat.le_refl 1
  | [], n :: shape, _ =>
    Nat.mul_le_mul (Nat.le_of_eq List.length_range) (@volume_positions_le [] shape (by simp))
  | s :: axes, n :: shape, h => by
    obtain ⟨hfirst, hrest⟩ := List.forall_mem_cons.1 h
    exact Nat.mul_le_mul hfirst.length_le (volume_positions_le hrest)

/-- Shape of a row after slicing. -/
def shapeOf (s : Slices) (inner : List Nat) : List Nat := (positions s.axes inner).map List.length

theorem positions_nil (shape : List Nat) : positions [] shape = shape.map List.range := by
  induction shape with
  | nil => rfl
  | cons n shape ih => simp [positions, ih]

theorem shapeOf_of_isEmpty {s : Slices} (h : s.axes = []) (inner : List Nat) : s.shapeOf inner = inner := by
  simp [shapeOf, h, positions_nil, Function.comp_def]

end Slices

/-! ## Picking within rows -/

namespace Tensor

variable {α : Type}

theorem takeExactly_eq_ok {width : Nat} {data first rest : List α} :
    takeExactly width data = .ok (first, rest) ↔ data = first ++ rest ∧ first.length = width := by
  unfold takeExactly
  dsimp only
  constructor
  · split
    · rintro ⟨⟩
      exact ⟨(List.take_append_drop width data).symm, by assumption⟩
    · rintro ⟨⟩
  · rintro ⟨rfl, hlen⟩
    rw [List.take_left' hlen, List.drop_left' hlen, if_pos hlen]

/-- Elements behind those that are read make no difference. -/
theorem pick_append : ∀ {shape : List Nat} {positions : List (List Nat)} {data picked : List α} (more : List α),
    pick shape positions data = .ok picked → pick shape positions (data ++ more) = .ok picked
  | _ :: shape, positions :: others, data, picked, more, h => by
    obtain ⟨blocks, hblocks, hp⟩ := bind_eq_ok.1 h
    refine bind_eq_ok.2 ⟨blocks, mapM_eq_ok.2 ((mapM_eq_ok.1 hblocks).imp fun i block hblock => ?_), hp⟩
    rw [List.drop_append]
    exact pick_append _ hblock
  | [], positions, data, picked, more, h => by
    rw [pick.eq_def] at h ⊢
    obtain ⟨⟨first, rest⟩, hfirst, rfl⟩ := map_eq_ok.1 h
    obtain ⟨rfl, hlen⟩ := takeExactly_eq_ok.1 hfirst
    exact map_eq_ok.2 ⟨(first, rest ++ more), takeExactly_eq_ok.2 ⟨List.append_assoc _ _ _, hlen⟩, rfl⟩
  | _ :: shape, [], data, picked, more, h => by
    rw [pick.eq_def] at h ⊢
    obtain ⟨⟨first, rest⟩, hfirst, rfl⟩ := map_eq_ok.1 h
    obtain ⟨rfl, hlen⟩ := takeExactly_eq_ok.1 hfirst
    exact map_eq_ok.2 ⟨(first, rest ++ more), takeExactly_eq_ok.2 ⟨List.append_assoc _ _ _, hlen⟩, rfl⟩

/-- As many elements are picked as there are combinations of positions. -/
theorem length_pick : ∀ {shape : List Nat} {positions : List (List Nat)} {data picked : List α},
    positions.length = shape.length → pick shape positions data = .ok picked →
    picked.length = volume (positions.map List.length)
  | [], [], data, picked, _, h => by
    rw [pick.eq_def] at h
    obtain ⟨⟨first, rest⟩, hfirst, rfl⟩ := map_eq_ok.1 h
    exact (takeExactly_eq_ok.1 hfirst).2
  | n :: shape, positions :: others, data, picked, hlen, h => by
    obtain ⟨blocks, hblocks, hp⟩ := bind_eq_ok.1 h
    cases hp
    have hfit : Fits (others.map List.length) blocks := fun block hb => by
      obtain ⟨i, -, hi⟩ := exists_of_mem_mapM hblocks hb
      exact length_pick (Nat.succ.inj hlen) hi
    rw [hfit.length_flatten, ← (mapM_eq_ok.1 hblocks).length_eq]
    rfl

/-- Picking from every row of an array picks from each row as from that row alone. -/
theorem Fits.mapM_pick {inner : List Nat} {positions : List (List Nat)} {rows sliced : List (List α)}
    (h : Fits inner rows) (hs : List.Forall₂ (fun row out => pick inner positions row = .ok out) rows sliced) :
    (List.range rows.length).mapM (fun i => pick inner positions (rows.flatten.drop (i * volume inner))) =
      .ok sliced := by
  rw [mapM_eq_ok, List.forall₂_iff_get]
  obtain ⟨hlen, hget⟩ := List.forall₂_iff_get.1 hs
  refine ⟨by simpa using hlen, fun i hi hi' => ?_⟩
  have hrow : i < rows.length := by simpa using hi
  simp only [List.get_eq_getElem, List.getElem_range]
  rw [h.drop_flatten, List.drop_eq_getElem_cons hrow, List.flatten_cons]
  exact pick_append _ (hget i hrow hi')

end Tensor

/-! ## Slicing row by row -/

namespace Tensor

variable {α : Type} {inner : List Nat} {rows : List (List α)}

/-- The array has these rows; elements behind them are never looked at. -/
structure HasRows (t : Tensor α) (inner : List Nat) (rows : List (List α)) : Prop where
  shape : t.shape = rows.length :: inner
  fits : Fits inner rows
  data : rows.flatten <+: t.data

theorem Fits.hasRows (h : Fits inner rows) : (ofRows inner rows).HasRows inner rows := ⟨rfl, h, List.prefix_rfl⟩

end Tensor

namespace Slices

variable {α : Type} {s : Slices} {inner : List Nat} {rows : List (List α)}

/-- Row by row, slicing what has that row alone gives what has the other row alone. -/
def SlicesTo (s : Slices) (inner inner' : List Nat) : List (List α) → List (List α) → Prop :=
  List.Forall₂ fun row out => s.apply (ofRows inner [row]) = .ok (ofRows inner' [out])

theorem apply_of_isEmpty (h : s.axes = []) (t : Tensor α) : s.apply t = .ok t := by
  simp [apply, h]

/-- With slices for some axes, slicing gathers. -/
theorem apply_of_lands {t : Tensor α} (hne : s.axes ≠ []) (hle : s.axes.length ≤ t.rank - 1)
    (h : s.Lands t.innerShape) :
    s.apply t = t.gather (List.range t.rowCount :: positions s.axes t.innerShape) := by
  have hempty : s.axes.isEmpty = false := by simpa using hne
  have hends : ¬ ((s.axes.zip t.innerShape).any fun p => (p.1.indices? .words p.2).isNone) = true := by
    rw [List.any_eq_true]
    rintro ⟨p, hp, hnone⟩
    rw [(h p hp).ends] at hnone
    cases hnone
  unfold apply
  rw [hempty, if_neg (by simp), if_neg (by omega), if_neg hends]

/-- When slicing succeeds, the slices have selected positions on the axes. -/
theorem lands_of_apply {t u : Tensor α} (h : s.apply t = .ok u) : s.Lands t.innerShape := by
  by_cases hne : s.axes = []
  · exact lands_of_isEmpty hne _
  · obtain ⟨shape, data⟩ := t
    unfold apply at h
    rw [if_neg (by simpa using hne)] at h
    split at h
    · cases h
    · rename_i hle
      split at h
      · cases h
      · rename_i hends
        obtain _ | ⟨n, inner⟩ := shape
        · exact fun p hp => by simp [innerShape] at hp
        -- the gathering reads within the axes, so every position taken is on its axis
        obtain _ | ⟨-, hsuits⟩ := suits_of_gatherIn h
        intro p hp
        refine ⟨?_, suits_positions.1 hsuits p hp⟩
        have hsome : ¬ (p.1.indices? .words p.2).isNone = true := fun hnone => hends (List.any_eq_true.2 ⟨p, hp, hnone⟩)
        rw [AxisSlice.indices]
        cases hp' : p.1.indices? .words p.2 with
        | none => simp [hp'] at hsome
        | some r => rfl

/-- With slices for some axes, slicing gathers within the rows. -/
theorem apply_of_hasRows {t : Tensor α} (hne : s.axes ≠ []) (hle : s.axes.length ≤ inner.length)
    (hlands : s.Lands inner)
    (h : t.HasRows inner rows) (hsize : t.data.length < Text.nat64End) {sliced : List (List α)}
    (hs : List.Forall₂ (fun row out => pick inner (positions s.axes inner) row = .ok out) rows sliced) :
    s.apply t = .ok (ofRows (s.shapeOf inner) sliced) := by
  obtain ⟨shape, data⟩ := t
  obtain rfl : shape = rows.length :: inner := h.shape
  obtain ⟨more, rfl⟩ := h.data
  have hsuits : Suits (rows.length :: inner) (List.range rows.length :: positions s.axes inner) :=
    .cons (fun i hi => List.mem_range.1 hi) hlands.suits
  have hshape : volume (rows.length :: inner) < Text.nat64End := by
    rw [volume_cons, ← h.fits.length_flatten]
    rw [List.length_append] at hsize
    omega
  have hlists : volume ((List.range rows.length :: positions s.axes inner).map List.length) ≤
    volume (rows.length :: inner) :=
    Nat.mul_le_mul (Nat.le_of_eq List.length_range) (volume_positions_le hlands)
  -- picking along the leading axis in full is picking in each row
  have hpick : pick (rows.length :: inner) (List.range rows.length :: positions s.axes inner) (rows.flatten ++ more) =
      .ok sliced.flatten := pick_append more (bind_eq_ok.2 ⟨sliced, h.fits.mapM_pick hs, rfl⟩)
  have hgather := gather_eq_pick (t := ⟨rows.length :: inner, rows.flatten ++ more⟩) hsuits hshape (by omega)
  rw [hpick] at hgather
  have happly := apply_of_lands (t := ⟨rows.length :: inner, rows.flatten ++ more⟩) hne
    (by simpa [rank] using hle) hlands
  refine happly.trans (hgather.trans ?_)
  simp [ofRows, shapeOf, hs.length_eq]

/-- An array with an axis for every slice is sliced row by row. -/
theorem apply_ofRows (hle : s.axes.length ≤ inner.length) (hlands : s.Lands inner) (h : Fits inner rows)
    (hsize : rows.flatten.length < Text.nat64End) : ∃ sliced,
    s.SlicesTo inner (s.shapeOf inner) rows sliced ∧ Fits (s.shapeOf inner) sliced ∧
      s.apply (ofRows inner rows) = .ok (ofRows (s.shapeOf inner) sliced) := by
  by_cases hne : s.axes = []
  · refine ⟨rows, ?_, ?_, ?_⟩
    · simp [SlicesTo, apply_of_isEmpty hne, shapeOf_of_isEmpty hne, List.forall₂_same]
    · rwa [shapeOf_of_isEmpty hne]
    · rw [apply_of_isEmpty hne, shapeOf_of_isEmpty hne]
  · have hrow : ∀ row ∈ rows, ∃ out, pick inner (positions s.axes inner) row = .ok out := fun row hrow =>
      exists_pick hlands.suits (Nat.le_of_eq (h row hrow).symm)
    obtain ⟨sliced, hsliced⟩ := exists_mapM hrow
    have hs := mapM_eq_ok.1 hsliced
    refine ⟨sliced, ?_, ?_, apply_of_hasRows hne hle hlands h.hasRows hsize hs⟩
    · refine List.forall₂_iff_zip.2 ⟨hs.length_eq, fun {row out} hmem => ?_⟩
      have hrow := (List.of_mem_zip hmem).1
      have hpick := (List.forall₂_iff_zip.1 hs).2 hmem
      -- a row alone has no more elements than all rows
      have hlen : row.length ≤ rows.flatten.length := (List.sublist_flatten_of_mem hrow).length_le
      exact apply_of_hasRows hne hle hlands (fits_cons.2 ⟨h row hrow, fits_nil⟩).hasRows
        (by simp only [ofRows, List.flatten_singleton]; omega) (.cons hpick .nil)
    · intro out hout
      obtain ⟨row, -, hpick⟩ := exists_of_mem_mapM hsliced hout
      exact length_pick (length_positions _ _) hpick

/-- More slices than axes are refused. -/
theorem apply_ofRows_of_lt (hlt : inner.length < s.axes.length) (rows : List (List α)) : ∃ r : Report,
    s.apply (ofRows inner rows) = fail r ∧ r.family = .compile ∧ r.code = "slice_axes" := by
  have hempty : s.axes.isEmpty = false := by
    cases haxes : s.axes with
    | nil => simp [haxes] at hlt
    | cons => rfl
  unfold apply
  rw [hempty, if_neg (by simp), if_pos (by simpa [rank, ofRows] using hlt)]
  exact ⟨_, rfl, rfl, rfl⟩

/-- When slicing succeeds, there was an axis for every slice. -/
theorem length_le_of_apply {t : Tensor α} (h : s.apply (ofRows inner rows) = .ok t) : s.axes.length ≤ inner.length := by
  by_contra hlt
  obtain ⟨r, hr, -, -⟩ := apply_ofRows_of_lt (Nat.lt_of_not_le hlt) rows
  rw [hr] at h
  cases h

end Slices
end ShotTally
