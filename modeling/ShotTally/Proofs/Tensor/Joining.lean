/-
Arrays by their rows. A well-formed array, a single number included, is its rows put one after the other.
Selecting keeps the rows with a flag, joining lines up the rows of all parts, stacking makes a row of every
part, and summing adds up the rows in order. So what is selected from joined arrays is what is selected from
each of them, joined.
-/
import Mathlib.Data.List.GetD
import ShotTally.Proofs.Tensor.RowView

namespace ShotTally.Tensor

variable {α : Type} {t : Tensor α}

/-! ## The rows of an array -/

/-- The rows of an array, as far as their elements are there. -/
def rowList (t : Tensor α) : List (List α) := (List.range t.rowCount).map t.rowAt

@[simp] theorem length_rowList (t : Tensor α) : t.rowList.length = t.rowCount := by simp [rowList]

theorem WellFormed.rows_eq (h : t.WellFormed) : t.rows = .ok t.rowList := h.readable.rows_eq

/-- A well-formed array is its rows. -/
theorem WellFormed.exists_rows (h : t.WellFormed) : Fits t.innerShape t.rowList ∧ t.rowList.flatten = t.data := by
  have hlen : t.data.length = t.rowCount * t.rowWidth := by rw [← volume_shape]; exact h
  obtain ⟨rows, hcount, hrows, hdata⟩ := exists_flatten hlen
  have hfit : Fits t.innerShape rows := hrows
  have hsplit : t.rows = .ok rows := by
    rw [Tensor.rows, ← hcount, ← hdata]
    exact hfit.splitRows_flatten
  obtain rfl : t.rowList = rows := Except.ok.inj (h.rows_eq.symm.trans hsplit)
  exact ⟨hfit, hdata⟩

theorem WellFormed.fits (h : t.WellFormed) : Fits t.innerShape t.rowList := h.exists_rows.1

theorem WellFormed.flatten_rowList (h : t.WellFormed) : t.rowList.flatten = t.data := h.exists_rows.2

theorem Fits.wellFormed {inner : List Nat} {rows : List (List α)} (h : Fits inner rows) :
    (ofRows inner rows).WellFormed :=
  h.length_flatten

theorem Fits.rowList_ofRows {inner : List Nat} {rows : List (List α)} (h : Fits inner rows) :
    (ofRows inner rows).rowList = rows :=
  Except.ok.inj (h.wellFormed.rows_eq.symm.trans h.rows_ofRows)

/-- One row is read outside the elements only when its number is past the last row. -/
theorem WellFormed.row_eq (h : t.WellFormed) (i : Nat) :
    t.row i = if i < t.rowCount ∨ t.rowWidth = 0 then .ok (t.rowAt i) else .error .outOfRange := by
  have hlen : t.data.length = t.rowCount * t.rowWidth := by rw [← volume_shape]; exact h
  unfold row rowAt
  by_cases hin : t.rowWidth ≤ (t.data.drop (i * t.rowWidth)).length
  case pos =>
    -- past the last row nothing is left, so only rows without elements are there
    rw [takeExactly_of_le hin, map_ok, if_pos]
    by_contra hout
    obtain ⟨hi, hwidth⟩ := not_or.1 hout
    have hmul : t.rowCount * t.rowWidth ≤ i * t.rowWidth := Nat.mul_le_mul_right _ (Nat.le_of_not_lt hi)
    rw [List.length_drop] at hin
    omega
  case neg =>
    rw [takeExactly_of_lt (Nat.lt_of_not_le hin), map_error, if_neg]
    rintro (hi | hwidth)
    · have hend : (i + 1) * t.rowWidth ≤ t.rowCount * t.rowWidth := Nat.mul_le_mul_right _ hi
      rw [Nat.succ_mul] at hend
      rw [List.length_drop] at hin
      omega
    · omega

/-! ## Selecting -/

/-- The numbers chosen among all numbers are the places of the set flags. -/
theorem chosen_range {flags : List Bool} {n : Nat} (hlen : flags.length = n) :
    chosen flags (List.range n) = placesSet flags := by
  have hcount : flags.length = (List.range n).length := by rw [List.length_range, hlen]
  have hsame : List.Forall₂ (· = ·) (placesSet flags) (chosen flags (List.range n)) := by
    refine (forall₂_placesSet hcount).imp fun i x hx => ?_
    obtain ⟨_, rfl⟩ := List.getElem?_eq_some_iff.1 hx
    exact (List.getElem_range _).symm
  rw [List.forall₂_eq_eq_eq] at hsame
  exact hsame.symm

/-- What is chosen from the rows are the rows at the places of the set flags. -/
theorem chosen_rowList {flags : List Bool} (hlen : flags.length = t.rowCount) :
    chosen flags t.rowList = (placesSet flags).map t.rowAt := by
  rw [rowList, chosen_map, chosen_range hlen]

/-- The array of the rows with a flag. -/
def masked (flags : List Bool) (t : Tensor α) : Tensor α := ofRows t.innerShape (chosen flags t.rowList)

@[simp] theorem innerShape_masked (flags : List Bool) (t : Tensor α) : (masked flags t).innerShape = t.innerShape := rfl

theorem WellFormed.masked (h : t.WellFormed) (flags : List Bool) : (masked flags t).WellFormed :=
  (h.fits.chosen flags).wellFormed

theorem WellFormed.rowList_masked (h : t.WellFormed) (flags : List Bool) :
    (t.masked flags).rowList = chosen flags t.rowList :=
  (h.fits.chosen flags).rowList_ofRows

theorem WellFormed.selectRows_eq (h : t.WellFormed) {flags : List Bool} (hlen : flags.length = t.rowCount) :
    t.selectRows flags = .ok (t.masked flags) := by
  have hcount : flags.length = t.rowList.length := by simpa using hlen
  have hkept := h.fits.keepRows_flatten hcount
  rw [h.flatten_rowList] at hkept
  unfold selectRows Tensor.masked
  rw [if_neg (not_not.2 hlen), ← length_chosen hcount]
  exact bind_eq_ok.2 ⟨_, hkept, rfl⟩

theorem chosen_append {β : Type} {flags flags' : List Bool} {items items' : List β}
    (hlen : flags.length = items.length) :
    chosen (flags ++ flags') (items ++ items') = chosen flags items ++ chosen flags' items' := by
  simp [chosen, List.zip_append hlen]

/-! ## Summing -/

/-- Adding up rows of one width, entry by entry. -/
theorem foldl_zipWith_eq [Scalar α] {width : Nat} :
    ∀ {rows : List (List α)} {start : List α}, (∀ row ∈ rows, row.length = width) →
    start.length = width → rows.foldl (List.zipWith (· + ·)) start =
      (List.range width).map fun j => (rows.map (·.getD j Scalar.zero)).foldl (· + ·) (start.getD j Scalar.zero)
  | [], start, _, hstart => by
    refine List.ext_getElem (by simp [hstart]) fun j hj _ => ?_
    simpa using (List.getD_eq_getElem _ _ hj).symm
  | row :: rows, start, h, hstart => by
    have hrow := h row (by simp)
    have hsum : (List.zipWith (· + ·) start row).length = width := by simp [hstart, hrow]
    rw [List.foldl_cons, foldl_zipWith_eq (fun r hr => h r (by simp [hr])) hsum]
    refine List.map_congr_left fun j hj => ?_
    have hj : j < width := List.mem_range.1 hj
    have hentry : (List.zipWith (· + ·) start row).getD j Scalar.zero =
        start.getD j Scalar.zero + row.getD j Scalar.zero := by
      simp [List.getD_eq_getElem?_getD, hj, hstart, hrow]
    rw [hentry, List.map_cons, List.foldl_cons]

/-- The sum of the rows has at every place the sum of the entries of the rows at that place, in order. -/
def rowSum [Scalar α] (t : Tensor α) : Tensor α :=
  ⟨t.innerShape, (List.range t.rowWidth).map fun j => (t.rowList.map (·.getD j Scalar.zero)).foldl (· + ·) Scalar.zero⟩

theorem WellFormed.sumRows_eq_rowSum [Scalar α] (h : t.WellFormed) : t.sumRows = .ok t.rowSum := by
  unfold sumRows rowSum
  have hstart : (List.replicate t.rowWidth (Scalar.zero : α)).length = volume t.innerShape := List.length_replicate
  rw [h.rows_eq, ok_bind, foldl_zipWith_eq h.fits hstart]
  refine congrArg (fun data => Except.ok (⟨t.innerShape, data⟩ : Tensor α)) (List.map_congr_left fun j hj => ?_)
  have hzero : (List.replicate t.rowWidth (Scalar.zero : α)).getD j Scalar.zero = Scalar.zero :=
    List.getD_replicate _ (List.mem_range.1 hj)
  rw [hzero]

/-! ## Arrays that are alike -/

/-- What is made of some arrays with a property in common; none at all and one unlike the first are refused. -/
def whenAlike {β γ : Type} [BEq γ] (key : Tensor α → γ) (empty : Report) (unlike : γ → γ → Report) (result : γ → β) :
    List (Tensor α) → Outcome β
  | [] => fail empty
  | first :: others =>
    match (first :: others).find? fun p => key p != key first with
    | some odd => fail (unlike (key first) (key odd))
    | none => .ok (result (key first))

/-- There are arrays, and all of them have a property in common. -/
def Alike {γ : Type} (key : Tensor α → γ) (parts : List (Tensor α)) : Prop := parts ≠ [] ∧ ∃ c, ∀ p ∈ parts, key p = c

section

variable {β γ : Type} [BEq γ] {key : Tensor α → γ} {empty : Report} {unlike : γ → γ → Report} {result : γ → β}
  {parts : List (Tensor α)}

theorem whenAlike_cons (first : Tensor α) (others : List (Tensor α)) :
    whenAlike key empty unlike result (first :: others) =
      match (first :: others).find? fun p => key p != key first with
      | some odd => fail (unlike (key first) (key odd))
      | none => .ok (result (key first)) := rfl

/-- Why arrays are refused depends on the properties alone. -/
theorem whenAlike_error_congr {δ ι : Type} {result' : γ → δ} {l : List ι} {f g : ι → Tensor α}
    (h : ∀ b, key (f b) = key (g b)) {e : Failure} (he : whenAlike key empty unlike result (l.map f) = .error e) :
    whenAlike key empty unlike result' (l.map g) = .error e := by
  cases l with
  | nil =>
    cases he
    rfl
  | cons first others =>
    have hfind : ∀ k : ι → Tensor α, ((first :: others).map k).find? (fun p => key p != key (k first)) =
        ((first :: others).find? fun b => key (k b) != key (k first)).map k := fun k => List.find?_map
    rw [List.map_cons, whenAlike_cons, ← List.map_cons, hfind] at he ⊢
    simp only [h] at he
    -- the first that is unlike the others decides, and it has the same key in both lists
    cases hodd : (first :: others).find? fun b => key (g b) != key (g first) with
    | none =>
      rw [hodd] at he
      cases he
    | some odd =>
      rw [hodd, Option.map_some] at he
      dsimp only at he
      rw [h odd] at he
      cases he
      rfl

variable [LawfulBEq γ]

theorem whenAlike_of_alike {c : γ} (hne : parts ≠ []) (h : ∀ p ∈ parts, key p = c) :
    whenAlike key empty unlike result parts = .ok (result c) := by
  obtain ⟨first, others, rfl⟩ := List.exists_cons_of_ne_nil hne
  have hfirst := h first List.mem_cons_self
  have hnone : (first :: others).find? (fun p => key p != c) = none := by
    rw [List.find?_eq_none]
    intro p hp
    simp [h p hp]
  rw [whenAlike_cons, hfirst, hnone]

theorem whenAlike_of_not (h : ¬ Alike key parts) : ∃ r, whenAlike key empty unlike result parts = fail r := by
  cases parts with
  | nil => exact ⟨empty, rfl⟩
  | cons first others =>
    rw [whenAlike_cons]
    cases hodd : (first :: others).find? fun p => key p != key first with
    | some odd => exact ⟨_, rfl⟩
    | none =>
      refine absurd ⟨List.cons_ne_nil _ _, key first, fun p hp => ?_⟩ h
      simpa using List.find?_eq_none.1 hodd p hp

end

/-! ## Joining and stacking -/

/-- Arrays are joined when the shapes of their rows are alike. -/
theorem concatRows_eq_whenAlike (parts : List (Tensor α)) : concatRows parts =
    whenAlike innerShape (.new .stats "concat_empty" "nothing to concatenate")
      (fun expected found => Report.new .stats "concat_shape" "row shapes differ"
        |>.note "expected" (shapeText expected)
        |>.note "found" (shapeText found))
      (fun inner => ⟨parts.foldr (fun p n => p.rowCount + n) 0 :: inner, parts.flatMap (·.data)⟩) parts := by
  cases parts <;> rfl

/-- Arrays are stacked when their shapes are alike. -/
theorem stack_eq_whenAlike (parts : List (Tensor α)) : stack parts =
    whenAlike shape (.new .stats "stack_empty" "nothing to stack")
      (fun expected found => Report.new .stats "stack_shape" "stacked arrays differ in shape"
        |>.note "expected" (shapeText expected)
        |>.note "found" (shapeText found))
      (fun inner => ⟨parts.length :: inner, parts.flatMap (·.data)⟩) parts := by
  cases parts <;> rfl

theorem concatRows_eq {parts : List (Tensor α)} {inner : List Nat} (hne : parts ≠ [])
    (h : ∀ p ∈ parts, p.innerShape = inner) :
    concatRows parts = .ok ⟨parts.foldr (fun p n => p.rowCount + n) 0 :: inner, parts.flatMap (·.data)⟩ := by
  rw [concatRows_eq_whenAlike, whenAlike_of_alike hne h]

theorem stack_eq {parts : List (Tensor α)} {inner : List Nat} (hne : parts ≠ []) (h : ∀ p ∈ parts, p.shape = inner) :
    stack parts = .ok ⟨parts.length :: inner, parts.flatMap (·.data)⟩ := by
  rw [stack_eq_whenAlike, whenAlike_of_alike hne h]

/-- Arrays are joined only if the shapes of their rows are alike. -/
theorem alike_of_concatRows {parts : List (Tensor α)} {u : Tensor α} (h : concatRows parts = .ok u) :
    Alike innerShape parts := by
  by_contra halike
  obtain ⟨r, hr⟩ := whenAlike_of_not halike
  cases (concatRows_eq_whenAlike parts ▸ h).symm.trans hr

section

variable {inner : List Nat} {parts : List (Tensor α)}

/-- Well-formed arrays one behind the other are their rows, in order. -/
theorem ofRows_flatMap_rowList (inner : List Nat) (hwf : ∀ p ∈ parts, p.WellFormed) :
    ofRows inner (parts.flatMap rowList) =
      ⟨parts.foldr (fun p n => p.rowCount + n) 0 :: inner, parts.flatMap (·.data)⟩ := by
  have hcount : (parts.flatMap rowList).length = parts.foldr (fun p n => p.rowCount + n) 0 := by
    clear hwf
    induction parts with
    | nil => rfl
    | cons p parts ih => rw [List.flatMap_cons, List.length_append, length_rowList, ih, List.foldr_cons]
  have hdata : (parts.flatMap rowList).flatten = parts.flatMap (·.data) := by
    rw [List.flatMap_def, List.flatMap_def, List.flatten_flatten, List.map_map]
    exact congrArg List.flatten (List.map_congr_left fun p hp => (hwf p hp).flatten_rowList)
  rw [ofRows, hcount, hdata]

/-- The rows of joined arrays are the rows of the parts, in order. -/
theorem concatRows_eq_ofRows (hne : parts ≠ []) (h : ∀ p ∈ parts, p.innerShape = inner)
    (hwf : ∀ p ∈ parts, p.WellFormed) :
    concatRows parts = .ok (ofRows inner (parts.flatMap rowList)) := by
  rw [concatRows_eq hne h, ofRows_flatMap_rowList inner hwf]

theorem fits_flatMap_rowList (h : ∀ p ∈ parts, p.innerShape = inner) (hwf : ∀ p ∈ parts, p.WellFormed) :
    Fits inner (parts.flatMap rowList) := by
  intro row hrow
  obtain ⟨p, hp, hrow⟩ := List.mem_flatMap.1 hrow
  rw [← h p hp]
  exact (hwf p hp).fits row hrow

/-- The rows of stacked arrays are the elements of each of the parts. -/
theorem stack_eq_ofRows (hne : parts ≠ []) (h : ∀ p ∈ parts, p.shape = inner) :
    stack parts = .ok (ofRows inner (parts.map (·.data))) := by
  rw [stack_eq hne h, ofRows, List.length_map, List.flatMap_def]

theorem fits_map_data (h : ∀ p ∈ parts, p.shape = inner) (hwf : ∀ p ∈ parts, p.WellFormed) :
    Fits inner (parts.map (·.data)) := by
  intro row hrow
  obtain ⟨p, hp, rfl⟩ := List.mem_map.1 hrow
  rw [← h p hp]
  exact hwf p hp

end

/-! ## Selecting from joined arrays -/

theorem chosen_flatMap {β γ : Type} {flags : β → List Bool} {items : β → List γ} : ∀ {l : List β},
    (∀ b ∈ l, (flags b).length = (items b).length) →
      chosen (l.flatMap flags) (l.flatMap items) = l.flatMap fun b => chosen (flags b) (items b)
  | [], _ => rfl
  | b :: l, h => by
    rw [List.flatMap_cons, List.flatMap_cons, chosen_append (h b List.mem_cons_self),
      chosen_flatMap fun b hb => h b (List.mem_cons_of_mem _ hb), List.flatMap_cons]

/-- Selecting from joined arrays, by the flags for the parts one after the other, is joining what is selected from each
part; both fail alike. -/
theorem selectRows_concatRows {parts : List (Tensor α × List Bool)} (hwf : ∀ p ∈ parts, p.1.WellFormed)
    (hlen : ∀ p ∈ parts, p.2.length = p.1.rowCount) :
    (do (← concatRows (parts.map Prod.fst)).selectRows (parts.flatMap Prod.snd)) =
      (do concatRows (← parts.mapM fun p => p.1.selectRows p.2)) := by
  have hselect : parts.mapM (fun p => p.1.selectRows p.2) = .ok (parts.map fun p => p.1.masked p.2) :=
    mapM_ok_of_mem fun p hp => (hwf p hp).selectRows_eq (hlen p hp)
  have hinner : ∀ p : Tensor α × List Bool, p.1.innerShape = (p.1.masked p.2).innerShape := fun p =>
    (innerShape_masked p.2 p.1).symm
  rw [hselect, ok_bind]
  rcases hjoin : concatRows (parts.map Prod.fst) with e | u
  · -- selecting leaves the shapes of the rows alone, and these alone decide what is refused
    rw [concatRows_eq_whenAlike] at hjoin
    rw [error_bind, concatRows_eq_whenAlike, whenAlike_error_congr hinner hjoin]
  · obtain ⟨hne, inner, halike⟩ := alike_of_concatRows hjoin
    have hall : ∀ t ∈ parts.map Prod.fst, t.WellFormed := List.forall_mem_map.2 hwf
    obtain rfl := Except.ok.inj (hjoin.symm.trans (concatRows_eq_ofRows hne halike hall))
    have hmasked : concatRows (parts.map fun p => p.1.masked p.2) =
        .ok (ofRows inner ((parts.map fun p => p.1.masked p.2).flatMap rowList)) := by
      refine concatRows_eq_ofRows (by simpa using hne) ?_ (List.forall_mem_map.2 fun p hp => (hwf p hp).masked p.2)
      exact List.forall_mem_map.2 (List.forall_mem_map.1 halike)
    have hrows : ∀ p ∈ parts, (p.1.masked p.2).rowList = chosen p.2 p.1.rowList :=
      fun p hp => (hwf p hp).rowList_masked p.2
    have hchosen : ∀ p ∈ parts, p.2.length = p.1.rowList.length := by simpa using hlen
    have hcount : (parts.flatMap Prod.snd).length = ((parts.map Prod.fst).flatMap rowList).length := by
      rw [List.flatMap_map, List.length_flatMap, List.length_flatMap]
      exact congrArg List.sum (List.map_congr_left hchosen)
    rw [ok_bind, hmasked, (fits_flatMap_rowList halike hall).selectRows_ofRows hcount, List.flatMap_map,
      List.flatMap_map,
      chosen_flatMap hchosen, List.flatMap_congr hrows]

end ShotTally.Tensor
