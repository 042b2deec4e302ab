/-
Reads within the elements of an array. With at least as many elements as its shape calls for an array is
never read past its end, neither going through its rows, nor taking one of them, selecting some or
gathering positions. With fewer, going through the rows does read past the end.
-/
import ShotTally.Proofs.Tensor.Cursor
import ShotTally.Tensor.Rows

namespace ShotTally.Tensor

variable {α : Type}

theorem volume_shape (t : Tensor α) : volume t.shape = t.rowCount * t.rowWidth := by
  unfold rowCount rowWidth innerShape
  cases t.shape with
  | nil => rfl
  | cons n inner => rfl

/-! ## Rows -/

theorem takeExactly_of_le {width : Nat} {data : List α} (h : width ≤ data.length) :
    takeExactly width data = .ok (data.take width, data.drop width) := by
  have hlen : (data.take width).length = width := List.length_take_of_le h
  unfold takeExactly
  rw [if_pos hlen]

theorem takeExactly_of_lt {width : Nat} {data : List α} (h : data.length < width) :
    takeExactly width data = .error .outOfRange := by
  have hlen : (data.take width).length ≠ width := by
    rw [List.length_take]
    omega
  unfold takeExactly
  rw [if_neg hlen]

/-- Rows can be cut off the front exactly if there are elements for all of them. -/
theorem exists_splitRows {width : Nat} : ∀ {n : Nat} {data : List α},
    (∃ rows, splitRows width n data = .ok rows) ↔ n * width ≤ data.length
  | 0, data => by
    constructor
    · intro _
      rw [Nat.zero_mul]
      exact Nat.zero_le _
    · intro _
      exact ⟨[], rfl⟩
  | n + 1, data => by
    have hmul : (n + 1) * width = n * width + width := Nat.succ_mul n width
    unfold splitRows
    -- if the first row is there, the others have to fit behind it
    by_cases hw : width ≤ data.length
    · have hrest : n * width ≤ (data.drop width).length ↔ (n + 1) * width ≤ data.length := by
        rw [List.length_drop]
        omega
      rw [takeExactly_of_le hw, ok_bind, ← hrest, ← exists_splitRows]
      constructor
      · rintro ⟨rows, h⟩
        obtain ⟨others, hothers, -⟩ := bind_eq_ok.1 h
        exact ⟨others, hothers⟩
      · rintro ⟨others, hothers⟩
        exact ⟨data.take width :: others, bind_eq_ok.2 ⟨others, hothers, rfl⟩⟩
    · rw [takeExactly_of_lt (Nat.lt_of_not_le hw)]
      constructor
      · rintro ⟨rows, h⟩
        cases h
      · intro h
        omega

theorem exists_keepRows {width : Nat} : ∀ {flags : List Bool} {data : List α}, flags.length * width ≤ data.length →
    ∃ kept, keepRows width flags data = .ok kept
  | [], data, _ => ⟨[], rfl⟩
  | flag :: flags, data, h => by
    rw [List.length_cons, Nat.succ_mul] at h
    have hrest : flags.length * width ≤ (data.drop width).length := by
      rw [List.length_drop]
      omega
    obtain ⟨kept, hkept⟩ := exists_keepRows hrest
    cases flag with
    | false => exact ⟨kept, hkept⟩
    | true =>
      refine ⟨data.take width ++ kept, ?_⟩
      unfold keepRows
      rw [takeExactly_of_le (by omega), ok_bind]
      exact bind_eq_ok.2 ⟨kept, hkept, rfl⟩

/-! ## Arrays that can be read -/

/-- No row iteration, row selection or gathering reads past the end of the elements. -/
structure Readable (t : Tensor α) : Prop where
  rows : ∃ l, t.rows = .ok l
  row : ∀ i < t.rowCount, ∃ r, t.row i = .ok r
  selectRows : ∀ flags, t.selectRows flags ≠ .error .outOfRange
  gather : ∀ positions, t.gather positions ≠ .error .outOfRange

variable {t : Tensor α}

/-- An array can be read exactly if it has at least as many elements as its shape calls for. -/
theorem readable_iff : t.Readable ↔ volume t.shape ≤ t.data.length := by
  have hrows : (∃ l, t.rows = .ok l) ↔ volume t.shape ≤ t.data.length := by
    rw [volume_shape]
    exact exists_splitRows
  constructor
  · intro h
    exact hrows.1 h.rows
  · intro h
    refine ⟨hrows.2 h, fun i hi => ?_, fun flags => ?_, gatherIn_ne_outOfRange .words h⟩
    -- row `i` ends at `(i + 1) * width`, within the data that the shape counts
    · have hend : (i + 1) * t.rowWidth ≤ t.rowCount * t.rowWidth := Nat.mul_le_mul_right _ hi
      rw [Nat.succ_mul, ← volume_shape] at hend
      have hw : t.rowWidth ≤ (t.data.drop (i * t.rowWidth)).length := by
        rw [List.length_drop]
        omega
      unfold row
      rw [takeExactly_of_le hw]
      exact ⟨_, rfl⟩
    · unfold selectRows
      split
      · intro hfail
        cases hfail
      · rename_i hlen
        have hflags : flags.length * t.rowWidth ≤ t.data.length := by
          rw [not_not.1 hlen, ← volume_shape]
          exact h
        obtain ⟨kept, hkept⟩ := exists_keepRows hflags
        rw [hkept]
        intro hfail
        cases hfail

theorem WellFormed.readable (h : t.WellFormed) : t.Readable := readable_iff.2 (Nat.le_of_eq h.symm)

end ShotTally.Tensor
