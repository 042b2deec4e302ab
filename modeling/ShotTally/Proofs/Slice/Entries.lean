/-
Slicing and computing element by element. The elements that slices pick from a row are those at fixed
places of it, whatever the elements are. So rows may be sliced and then added up, scaled or combined, or
first be computed with and then sliced.
-/
import ShotTally.Proofs.Slice.Rows

namespace ShotTally

/-! ## Places in a row -/

namespace Tensor

variable {α β γ : Type}

/-- The elements at the given places. -/
def TakenAt (places : List Nat) (data out : List α) : Prop := List.Forall₂ (fun i x => data[i]? = some x) places out

/-- What is picked from some elements is what is at the places. -/
theorem takenAt_of_pick {shape : List Nat} {positions : List (List Nat)} {data out : List α}
    (hlen : positions.length = shape.length) (h : pick shape positions data = .ok out) :
    TakenAt (offsets shape positions) data out := by
  rw [pick_eq data hlen] at h
  exact (mapM_eq_ok.1 h).imp fun _ _ => readAt_eq_ok.1

namespace TakenAt

variable {places : List Nat} {data out out' : List α} {data' : List β} {other : List β}

theorem unique (h : TakenAt places data out) (h' : TakenAt places data out') : out = out' := by
  induction h generalizing out' with
  | nil => cases h'; rfl
  | cons hx _ ih =>
    obtain _ | ⟨hy, hrest⟩ := h'
    rw [Option.some.inj (hx.symm.trans hy), ih hrest]

theorem map (f : α → β) (h : TakenAt places data out) : TakenAt places (data.map f) (out.map f) := by
  unfold TakenAt
  rw [List.forall₂_map_right_iff]
  exact h.imp fun i x hx => by rw [List.getElem?_map, hx, Option.map_some]

theorem zipWith (f : α → β → γ) (h : TakenAt places data out) (h' : TakenAt places data' other) :
    TakenAt places (data.zipWith f data') (out.zipWith f other) := by
  induction h generalizing other with
  | nil => cases h'; exact .nil
  | cons hx _ ih =>
    obtain _ | ⟨hy, hrest⟩ := h'
    exact .cons (by rw [List.getElem?_zipWith, hx, hy]) (ih hrest)

theorem eq_replicate {n : Nat} {x : α} (h : TakenAt places (List.replicate n x) out) :
    out = List.replicate out.length x := by
  rw [List.eq_replicate_iff]
  refine ⟨rfl, fun y hy => ?_⟩
  obtain ⟨k, hk, rfl⟩ := List.getElem_of_mem hy
  obtain ⟨hlen, hget⟩ := List.forall₂_iff_get.1 h
  exact (List.mem_replicate.1 (List.mem_of_getElem? (hget k (hlen ▸ hk) hk))).2

end TakenAt

variable {inner : List Nat} {positions : List (List Nat)} {rows sliced : List (List α)}

/-- Picking whole rows picks from each row on its own. -/
theorem Fits.pick_rows (h : Fits inner rows)
    (hs : List.Forall₂ (fun row out => pick inner positions row = .ok out) rows sliced) :
    pick (rows.length :: inner) (List.range rows.length :: positions) rows.flatten = .ok sliced.flatten :=
  bind_eq_ok.2 ⟨sliced, h.mapM_pick hs, rfl⟩

/-- Picking from rows that are made one for each member of a list. -/
theorem pick_flatMap {ι : Type} {l : List ι} {f g : ι → List α} (hfit : ∀ i ∈ l, (f i).length = volume inner)
    (h : ∀ i ∈ l, pick inner positions (f i) = .ok (g i)) :
    pick (l.length :: inner) (List.range l.length :: positions) (l.flatMap f) = .ok (l.flatMap g) := by
  have hrows : Fits inner (l.map f) := List.forall_mem_map.2 hfit
  have hpicks : List.Forall₂ (fun row out => pick inner positions row = .ok out) (l.map f) (l.map g) := by
    rw [List.forall₂_map_left_iff, List.forall₂_map_right_iff]
    exact List.forall₂_same.2 h
  simpa only [List.length_map, List.flatMap_def] using hrows.pick_rows hpicks

/-- Picking every position picks everything. -/
theorem pick_all : ∀ {shape : List Nat} {data : List α}, data.length = volume shape →
    pick shape (shape.map List.range) data = .ok data
  | [], data, h => by
    rw [pick.eq_def]
    exact map_eq_ok.2 ⟨(data, []), takeExactly_eq_ok.2 ⟨(List.append_nil data).symm, h⟩, rfl⟩
  | n :: shape, data, h => by
    obtain ⟨rows, rfl, hfit, rfl⟩ := exists_flatten h
    exact Fits.pick_rows hfit (List.forall₂_same.2 fun row hrow => pick_all (hfit row hrow))

end Tensor

open Tensor

/-! ## Rows that are sliced -/

namespace Slices

/-- What a row of a shape becomes when it is sliced. -/
structure Cuts {α : Type} (s : Slices) (inner : List Nat) (row out : List α) : Prop where
  length : row.length = volume inner
  picked : pick inner (positions s.axes inner) row = .ok out

variable {α β γ : Type} {s : Slices} {inner : List Nat}

theorem Lands.exists_cut (hlands : s.Lands inner) {row : List α} (h : row.length = volume inner) :
    ∃ out, s.Cuts inner row out := by
  obtain ⟨out, hout⟩ := exists_pick hlands.suits (Nat.le_of_eq h.symm)
  exact ⟨out, h, hout⟩

/-- Without slices a row stays as it is. -/
theorem cuts_self (h : s.axes = []) {row : List α} (hrow : row.length = volume inner) : s.Cuts inner row row :=
  ⟨hrow, by rw [h, positions_nil]; exact pick_all hrow⟩

namespace Cuts

variable {row out out' : List α} {row' : List β} {other : List β}

theorem length_out (h : s.Cuts inner row out) : out.length = volume (s.shapeOf inner) :=
  length_pick (length_positions _ _) h.picked

theorem takenAt (h : s.Cuts inner row out) : TakenAt (offsets inner (positions s.axes inner)) row out :=
  takenAt_of_pick (length_positions _ _) h.picked

/-- What is at the places of a row is its slice. -/
theorem of_takenAt (hrow : row.length = volume inner)
    (h : TakenAt (offsets inner (positions s.axes inner)) row out) : s.Cuts inner row out := by
  refine ⟨hrow, ?_⟩
  rw [pick_eq row (length_positions _ _)]
  exact mapM_eq_ok.2 (h.imp fun _ _ => readAt_eq_ok.2)

theorem map (f : α → β) (h : s.Cuts inner row out) : s.Cuts inner (row.map f) (out.map f) :=
  .of_takenAt (by rw [List.length_map, h.length]) (h.takenAt.map f)

theorem zipWith (f : α → β → γ) (h : s.Cuts inner row out) (h' : s.Cuts inner row' other) :
    s.Cuts inner (row.zipWith f row') (out.zipWith f other) :=
  .of_takenAt (by rw [List.length_zipWith, h.length, h'.length, Nat.min_self]) (h.takenAt.zipWith f h'.takenAt)

end Cuts

/-- A row of one number is sliced to one of that number. -/
theorem Lands.cuts_replicate (hlands : s.Lands inner) (x : α) :
    s.Cuts inner (List.replicate (volume inner) x) (List.replicate (volume (s.shapeOf inner)) x) := by
  obtain ⟨out, h⟩ := hlands.exists_cut (List.length_replicate (n := volume inner) (a := x))
  have hout : out = List.replicate (volume (s.shapeOf inner)) x := h.length_out ▸ h.takenAt.eq_replicate
  rwa [hout] at h

/-- The sum of sliced rows is the slice of their sum. -/
theorem Lands.cuts_totalRow [Scalar α] (hlands : s.Lands inner) {table sliced : List (List α)}
    (h : List.Forall₂ (s.Cuts inner) table sliced) :
    s.Cuts inner (totalRow inner table) (totalRow (s.shapeOf inner) sliced) := by
  have hfold : ∀ {start start' : List α}, s.Cuts inner start start' →
      s.Cuts inner (table.foldl (List.zipWith (· + ·)) start) (sliced.foldl (List.zipWith (· + ·)) start') := by
    induction h with
    | nil => exact fun hstart => hstart
    | cons hrow _ ih => exact fun hstart => ih (hstart.zipWith _ hrow)
  exact hfold (hlands.cuts_replicate Scalar.zero)

theorem fits_of_cuts {table sliced : List (List α)} (h : List.Forall₂ (s.Cuts inner) table sliced) :
    Fits inner table ∧ Fits (s.shapeOf inner) sliced := by
  induction h with
  | nil => exact ⟨fits_nil, fits_nil⟩
  | cons hrow _ ih => exact ⟨fits_cons.2 ⟨hrow.length, ih.1⟩, fits_cons.2 ⟨hrow.length_out, ih.2⟩⟩

/-- The rows of a table can be sliced. -/
theorem Lands.exists_cuts (hlands : s.Lands inner) {table : List (List α)} (h : Fits inner table) :
    ∃ sliced, List.Forall₂ (s.Cuts inner) table sliced := by
  induction table with
  | nil => exact ⟨[], .nil⟩
  | cons row table ih =>
    obtain ⟨hrow, hrest⟩ := fits_cons.1 h
    obtain ⟨out, hout⟩ := hlands.exists_cut hrow
    obtain ⟨sliced, hsliced⟩ := ih hrest
    exact ⟨out :: sliced, .cons hout hsliced⟩

/-- Rows with a flag are sliced as they would be among all rows. -/
theorem cuts_chosen {table sliced : List (List α)} (h : List.Forall₂ (s.Cuts inner) table sliced) (flags : List Bool) :
    List.Forall₂ (s.Cuts inner) (chosen flags table) (chosen flags sliced) := by
  induction h generalizing flags with
  | nil => cases flags <;> exact .nil
  | cons hrow _ ih =>
    cases flags with
    | nil => exact .nil
    | cons flag flags =>
      cases flag with
      | false => exact ih flags
      | true => exact .cons hrow (ih flags)

end Slices
end ShotTally
