/-
Arrays as lists of rows. A well-formed array that has an axis 0 is the array of its rows, and selecting
rows, adding them up and flattening them are operations on the lists of rows. The rows of an array that can
be read are its stretches of elements, one after the other.
-/
import ShotTally.Proofs.Tensor.InBounds

namespace ShotTally.Tensor

variable {α β : Type}

/-! ## The array of some rows -/

/-- All rows have as many elements as the shape of a row calls for. -/
def Fits (inner : List Nat) (rows : List (List α)) : Prop := ∀ row ∈ rows, row.length = volume inner

/-- The array of given rows. -/
def ofRows (inner : List Nat) (rows : List (List α)) : Tensor α := ⟨rows.length :: inner, rows.flatten⟩

@[simp] theorem rowCount_ofRows (inner : List Nat) (rows : List (List α)) :
    (ofRows inner rows).rowCount = rows.length := rfl

@[simp] theorem innerShape_ofRows (inner : List Nat) (rows : List (List α)) :
    (ofRows inner rows).innerShape = inner := rfl

@[simp] theorem rowWidth_ofRows (inner : List Nat) (rows : List (List α)) :
    (ofRows inner rows).rowWidth = volume inner := rfl

@[simp] theorem data_ofRows (inner : List Nat) (rows : List (List α)) : (ofRows inner rows).data = rows.flatten := rfl

variable {inner : List Nat} {rows : List (List α)}

theorem fits_nil : Fits inner ([] : List (List α)) := by simp [Fits]

theorem fits_cons {row : List α} : Fits inner (row :: rows) ↔ row.length = volume inner ∧ Fits inner rows := by
  simp [Fits]

theorem Fits.length_flatten (h : Fits inner rows) : rows.flatten.length = rows.length * volume inner := by
  induction rows with
  | nil => simp
  | cons row rows ih =>
    obtain ⟨hrow, hrows⟩ := fits_cons.1 h
    simp only [List.flatten_cons, List.length_append, List.length_cons, hrow, ih hrows, Nat.succ_mul]
    omega

/-- What is behind some rows are the other rows. -/
theorem Fits.drop_flatten (h : Fits inner rows) (i : Nat) :
    rows.flatten.drop (i * volume inner) = (rows.drop i).flatten := by
  induction rows generalizing i with
  | nil => simp
  | cons row rows ih =>
    obtain ⟨hrow, hrows⟩ := fits_cons.1 h
    cases i with
    | zero => simp
    | succ i =>
      have hdrop : (i + 1) * volume inner = row.length + i * volume inner := by rw [hrow, Nat.succ_mul, Nat.add_comm]
      rw [List.flatten_cons, hdrop, List.drop_append, List.drop_of_length_le (by omega), List.nil_append,
        Nat.add_sub_cancel_left, ih hrows, List.drop_succ_cons]

theorem Fits.splitRows_flatten (h : Fits inner rows) :
    splitRows (volume inner) rows.length rows.flatten = .ok rows := by
  induction rows with
  | nil => rfl
  | cons row rows ih =>
    obtain ⟨hrow, hrows⟩ := fits_cons.1 h
    have hle : volume inner ≤ (row ++ rows.flatten).length := by
      rw [List.length_append]
      omega
    rw [List.flatten_cons, List.length_cons, splitRows, takeExactly_of_le hle, ok_bind, List.take_left' hrow,
      List.drop_left' hrow]
    dsimp only
    rw [ih hrows]
    rfl

theorem Fits.rows_ofRows (h : Fits inner rows) : (ofRows inner rows).rows = .ok rows := h.splitRows_flatten

/-- Elements for so many rows are rows put one after the other. -/
theorem exists_flatten {width : Nat} : ∀ {n : Nat} {data : List α}, data.length = n * width →
    ∃ rows : List (List α), rows.length = n ∧ (∀ row ∈ rows, row.length = width) ∧ rows.flatten = data
  | 0, data, h => ⟨[], rfl, by simp, by simpa using h⟩
  | n + 1, data, h => by
    have hmul : (n + 1) * width = n * width + width := Nat.succ_mul n width
    have hdrop : (data.drop width).length = n * width := by
      rw [List.length_drop]
      omega
    obtain ⟨rows, hlen, hrows, hdata⟩ := exists_flatten hdrop
    refine ⟨data.take width :: rows, by simp [hlen], ?_, by simp [hdata]⟩
    rintro row (_ | ⟨_, hrow⟩)
    · rw [List.length_take]
      omega
    · exact hrows row hrow

/-- A well-formed array with an axis 0 is the array of its rows. -/
theorem WellFormed.exists_ofRows {t : Tensor α} {n : Nat} (h : t.WellFormed) (hshape : t.shape = n :: inner) :
    ∃ rows : List (List α), rows.length = n ∧ Fits inner rows ∧ t = ofRows inner rows := by
  obtain ⟨shape, data⟩ := t
  subst hshape
  obtain ⟨rows, hlen, hrows, hdata⟩ := exists_flatten (show data.length = n * volume inner from h)
  exact ⟨rows, hlen, hrows, by simp [ofRows, hlen, hdata]⟩

/-! ## Rows by number -/

/-- The elements of a row, as far as they are there. -/
def rowAt (t : Tensor α) (i : Nat) : List α := (t.data.drop (i * t.rowWidth)).take t.rowWidth

/-- A row is among the elements behind the first row, one place earlier. -/
theorem drop_succ_mul (data : List α) (i width : Nat) :
    data.drop ((i + 1) * width) = (data.drop width).drop (i * width) := by
  rw [List.drop_drop, Nat.succ_mul, Nat.add_comm]

theorem splitRows_eq {width : Nat} : ∀ {n : Nat} {data : List α}, n * width ≤ data.length →
    splitRows width n data = .ok ((List.range n).map fun i => (data.drop (i * width)).take width)
  | 0, _, _ => rfl
  | n + 1, data, h => by
    rw [Nat.succ_mul] at h
    have hrest : n * width ≤ (data.drop width).length := by
      rw [List.length_drop]
      omega
    rw [splitRows, takeExactly_of_le (by omega), ok_bind]
    dsimp only
    rw [splitRows_eq hrest, List.range_succ_eq_map, List.map_cons, List.map_map]
    simp only [Function.comp_def, Nat.succ_eq_add_one, drop_succ_mul, Nat.zero_mul, List.drop_zero]
    rfl

variable {t : Tensor α}

theorem Readable.rows_eq (h : t.Readable) : t.rows = .ok ((List.range t.rowCount).map t.rowAt) :=
  splitRows_eq (by simpa only [← volume_shape] using readable_iff.1 h)

theorem Readable.length_rowAt (h : t.Readable) {i : Nat} (hi : i < t.rowCount) : (t.rowAt i).length = t.rowWidth := by
  have hend : (i + 1) * t.rowWidth ≤ t.rowCount * t.rowWidth := Nat.mul_le_mul_right _ hi
  rw [Nat.succ_mul, ← volume_shape] at hend
  have hle := readable_iff.1 h
  rw [rowAt, List.length_take, List.length_drop]
  omega

/-! ## Applying a function to every element -/

theorem Fits.map (h : Fits inner rows) (f : α → β) : Fits inner (rows.map (List.map f)) := by
  intro row hrow
  obtain ⟨r, hr, rfl⟩ := List.mem_map.1 hrow
  simpa using h r hr

theorem map_ofRows (f : α → β) (inner : List Nat) (rows : List (List α)) :
    (ofRows inner rows).map f = ofRows inner (rows.map (List.map f)) := by
  simp [Tensor.map, ofRows, List.map_flatten]

/-! ## Selecting rows -/

/-- The items whose flag is set. -/
def chosen (flags : List Bool) (items : List β) : List β := ((flags.zip items).filter (·.1)).map (·.2)

/-- Where flags are set. -/
def placesSet (flags : List Bool) : List Nat := (List.range flags.length).filter fun i => flags[i]? == some true

@[simp] theorem chosen_nil (items : List β) : chosen [] items = [] := rfl

@[simp] theorem chosen_true (flags : List Bool) (item : β) (items : List β) :
    chosen (true :: flags) (item :: items) = item :: chosen flags items := rfl

@[simp] theorem chosen_false (flags : List Bool) (item : β) (items : List β) :
    chosen (false :: flags) (item :: items) = chosen flags items := rfl

theorem chosen_map {γ : Type} (f : β → γ) (flags : List Bool) (items : List β) :
    chosen flags (items.map f) = (chosen flags items).map f := by
  simp [chosen, List.zip_map_right, List.filter_map, Function.comp_def]

theorem mem_of_mem_chosen {flags : List Bool} {items : List β} {x : β} (h : x ∈ chosen flags items) : x ∈ items := by
  obtain ⟨p, hp, rfl⟩ := List.mem_map.1 h
  exact (List.of_mem_zip (List.mem_filter.1 hp).1).2

theorem Fits.chosen (h : Fits inner rows) (flags : List Bool) : Fits inner (chosen flags rows) :=
  fun row hrow => h row (mem_of_mem_chosen hrow)

theorem placesSet_cons (flag : Bool) (flags : List Bool) :
    placesSet (flag :: flags) = (if flag then [0] else []) ++ (placesSet flags).map Nat.succ := by
  simp only [placesSet, List.length_cons, List.range_succ_eq_map, List.filter_cons, List.filter_map]
  cases flag <;> simp [Function.comp_def]

/-- The chosen items are those at the places of the set flags, in their order. -/
theorem forall₂_placesSet : ∀ {flags : List Bool} {items : List β}, flags.length = items.length →
    List.Forall₂ (fun i x => items[i]? = some x) (placesSet flags) (chosen flags items)
  | [], [], _ => .nil
  | flag :: flags, item :: items, h => by
    have hrest : List.Forall₂ (fun i x => (item :: items)[i]? = some x) ((placesSet flags).map Nat.succ)
        (chosen flags items) := by
      rw [List.forall₂_map_left_iff]
      exact (forall₂_placesSet (Nat.succ.inj h)).imp fun i x hx => by simpa using hx
    rw [placesSet_cons]
    cases flag with
    | false => simpa only [Bool.false_eq_true, if_false, List.nil_append, chosen_false] using hrest
    | true => exact .cons rfl hrest

/-- Selecting rows of an array by a flag for each of them. -/
theorem Fits.keepRows_flatten :
    ∀ {flags : List Bool} {rows : List (List α)}, Fits inner rows → flags.length = rows.length →
    keepRows (volume inner) flags rows.flatten = .ok (Tensor.chosen flags rows).flatten
  | [], [], _, _ => rfl
  | flag :: flags, row :: rows, h, hlen => by
    obtain ⟨hrow, hrows⟩ := fits_cons.1 h
    have ih := Fits.keepRows_flatten hrows (Nat.succ.inj hlen)
    -- the rows lie one after the other, so the next one is the first width of what is left
    cases flag with
    | false =>
      rw [List.flatten_cons, keepRows, List.drop_left' hrow, ih, chosen_false]
    | true =>
      have hle : volume inner ≤ (row ++ rows.flatten).length := by
        rw [List.length_append]
        omega
      rw [List.flatten_cons, keepRows, takeExactly_of_le hle, ok_bind, List.take_left' hrow, List.drop_left' hrow]
      dsimp only
      rw [ih, ok_bind, chosen_true]
      rfl

theorem length_chosen : ∀ {flags : List Bool} {items : List β}, flags.length = items.length →
    (chosen flags items).length = flags.count true
  | [], [], _ => rfl
  | flag :: flags, item :: items, h => by
    have ih := length_chosen (Nat.succ.inj h)
    cases flag <;> simpa using ih

theorem Fits.selectRows_ofRows (h : Fits inner rows) {flags : List Bool} (hlen : flags.length = rows.length) :
    (ofRows inner rows).selectRows flags = .ok (ofRows inner (Tensor.chosen flags rows)) := by
  unfold selectRows
  rw [if_neg (by simpa using hlen), rowWidth_ofRows, data_ofRows, h.keepRows_flatten hlen, ← length_chosen hlen]
  rfl

/-! ## Adding up and flattening -/

/-- The sum of rows, element by element. -/
def totalRow [Scalar α] (inner : List Nat) (rows : List (List α)) : List α :=
  rows.foldl (List.zipWith (· + ·)) (List.replicate (volume inner) Scalar.zero)

theorem Fits.sumRows_ofRows [Scalar α] (h : Fits inner rows) :
    (ofRows inner rows).sumRows = .ok ⟨inner, totalRow inner rows⟩ := by
  unfold sumRows
  rw [h.rows_ofRows]
  rfl

/-- Adding rows of one width to one keeps that width. -/
theorem length_foldl_zipWith [Scalar α] (h : Fits inner rows) {start : List α} (hs : start.length = volume inner) :
    (rows.foldl (List.zipWith (· + ·)) start).length = volume inner := by
  induction rows generalizing start with
  | nil => exact hs
  | cons row rows ih =>
    obtain ⟨hrow, hrows⟩ := fits_cons.1 h
    exact ih hrows (by simp [hs, hrow])

theorem Fits.length_totalRow [Scalar α] (h : Fits inner rows) : (totalRow inner rows).length = volume inner :=
  length_foldl_zipWith h (by simp)

/-- Every row as a flat sample. -/
theorem Fits.reshape_ofRows (h : Fits inner rows) :
    (ofRows inner rows).reshape [rows.length, volume inner] = .ok (ofRows [volume inner] rows) := by
  unfold reshape
  rw [if_pos]
  · rfl
  · rw [data_ofRows, h.length_flatten]
    simp [volume]

theorem Fits.flat (h : Fits inner rows) : Fits [volume inner] rows := by
  simpa [Fits, volume] using h

end ShotTally.Tensor
