/-
Programs of array operations. An operation on well-formed arrays makes a well-formed array or is refused, and
never reads outside the elements; so whatever a program does with the arrays it has made before, it makes
well-formed ones, and the rows of each of them are those that its operation says. Only a single row is ever
read outside the elements, when its number is past the last row.
-/
import ShotTally.Proofs.Number.Exact
import ShotTally.Proofs.Slice.Elements
import ShotTally.Proofs.Tensor.Joining

namespace ShotTally.Tensor

variable {α : Type}

/-- An operation that makes an array, with what it is applied to. -/
inductive Operation (α : Type) where
  | make (shape : List Nat) (data : List α)
  | zeros (shape : List Nat)
  | scalar (value : α)
  | ofList (values : List α)
  | reshape (shape : List Nat) (t : Tensor α)
  | selectRows (flags : List Bool) (t : Tensor α)
  | sumRows (t : Tensor α)
  | concatRows (parts : List (Tensor α))
  | stack (parts : List (Tensor α))
  | gather (lists : List (List Nat)) (t : Tensor α)

namespace Operation

/-! ## What an operation makes -/

/-- The arrays an operation is applied to. -/
def arguments : Operation α → List (Tensor α)
  | make _ _ | zeros _ | scalar _ | ofList _ => []
  | reshape _ t | selectRows _ t | sumRows t | gather _ t => [t]
  | concatRows parts | stack parts => parts

/-- When an operation is not refused. -/
def Applicable : Operation α → Prop
  | make shape data => volume shape = data.length
  | zeros _ | scalar _ | ofList _ | sumRows _ => True
  | reshape shape t => volume shape = t.data.length
  | selectRows flags t => flags.length = t.rowCount
  | concatRows parts => Alike innerShape parts
  | stack parts => Alike shape parts
  | gather lists t => Suits t.shape lists

variable [Scalar α]

/-- The outcome of an operation, with counts of any size. -/
def outcome : Operation α → Outcome (Tensor α)
  | make shape data => Tensor.make shape data
  | zeros shape => .ok (Tensor.zeros shape)
  | scalar value => .ok (Tensor.scalar value)
  | ofList values => .ok (Tensor.ofList values)
  | reshape shape t => t.reshape shape
  | selectRows flags t => t.selectRows flags
  | sumRows t => t.sumRows
  | concatRows parts => Tensor.concatRows parts
  | stack parts => Tensor.stack parts
  | gather lists t => t.gatherIn .unbounded lists

/-- What is made: the elements that are given or there already, in another shape for `reshape`, the rows with a set
flag, the sum of the rows in order, the rows of all parts in order, each part as a row, or the elements at the
gathered positions. -/
def Makes : Operation α → Tensor α → Prop
  | make shape data, u => u = ⟨shape, data⟩
  | zeros shape, u => u = ⟨shape, List.replicate (volume shape) Scalar.zero⟩
  | scalar value, u => u = ⟨[], [value]⟩
  | ofList values, u => u = ⟨[values.length], values⟩
  | reshape shape t, u => u = ⟨shape, t.data⟩
  | selectRows flags t, u => u.innerShape = t.innerShape ∧ u.rows = .ok ((placesSet flags).map t.rowAt)
  | sumRows t, u => u = ⟨t.innerShape, (List.range t.rowWidth).map fun j =>
      (t.rowList.map (·.getD j Scalar.zero)).foldl (· + ·) Scalar.zero⟩
  | concatRows parts, u => (∀ p ∈ parts, p.innerShape = u.innerShape) ∧ u.rows = .ok (parts.flatMap rowList)
  | stack parts, u => (∀ p ∈ parts, p.shape = u.innerShape) ∧ u.rows = .ok (parts.map (·.data))
  | gather lists t, u => t.Gathers lists u

/-- An operation succeeds exactly when it is applicable, reads nothing outside the elements, and makes a well-formed
array of what it should. -/
structure Sound (op : Operation α) : Prop where
  within : op.outcome ≠ .error .outOfRange
  ok : (∃ u, op.outcome = .ok u) ↔ op.Applicable
  made : ∀ u, op.outcome = .ok u → u.WellFormed ∧ op.Makes u

/-! ## One operation -/

theorem Sound.of_eq {op : Operation α} {u : Tensor α} (h : op.outcome = .ok u) (happ : op.Applicable)
    (hwf : u.WellFormed) (hmakes : op.Makes u) : op.Sound where
  within := by
    rw [h]
    intro hfail
    cases hfail
  ok := iff_of_true ⟨u, h⟩ happ
  made := fun v hv => by
    obtain rfl := Except.ok.inj (h.symm.trans hv)
    exact ⟨hwf, hmakes⟩

theorem Sound.of_refused {op : Operation α} {r : Report} (h : op.outcome = fail r) (happ : ¬ op.Applicable) :
    op.Sound where
  within := by
    rw [h]
    intro hfail
    cases hfail
  ok := by
    refine iff_of_false ?_ happ
    rintro ⟨u, hu⟩
    cases h.symm.trans hu
  made := fun v hv => by cases h.symm.trans hv

theorem sound_make (shape : List Nat) (data : List α) : (make shape data).Sound := by
  by_cases hlen : volume shape = data.length
  · exact .of_eq (if_pos hlen) hlen hlen.symm rfl
  · exact .of_refused (if_neg hlen) hlen

theorem sound_reshape (shape : List Nat) (t : Tensor α) : (reshape shape t).Sound := by
  by_cases hlen : volume shape = t.data.length
  · exact .of_eq (if_pos hlen) hlen hlen.symm rfl
  · exact .of_refused (if_neg hlen) hlen

theorem sound_selectRows (flags : List Bool) {t : Tensor α} (h : t.WellFormed) : (selectRows flags t).Sound := by
  by_cases hlen : flags.length = t.rowCount
  · refine .of_eq (h.selectRows_eq hlen) hlen (h.masked flags) ⟨rfl, ?_⟩
    rw [(h.masked flags).rows_eq, h.rowList_masked, chosen_rowList hlen]
  · exact .of_refused (if_pos hlen) hlen

theorem sound_sumRows {t : Tensor α} (h : t.WellFormed) : (sumRows t).Sound := by
  refine .of_eq h.sumRows_eq_rowSum trivial ?_ rfl
  show (List.map _ (List.range t.rowWidth)).length = volume t.innerShape
  rw [List.length_map, List.length_range]
  rfl

theorem sound_concatRows {parts : List (Tensor α)} (h : ∀ p ∈ parts, p.WellFormed) : (concatRows parts).Sound := by
  by_cases halike : Alike innerShape parts
  · obtain ⟨hne, inner, hinner⟩ := halike
    have hfits := fits_flatMap_rowList hinner h
    exact .of_eq (concatRows_eq_ofRows hne hinner h) ⟨hne, inner, hinner⟩ hfits.wellFormed ⟨hinner, hfits.rows_ofRows⟩
  · obtain ⟨r, hr⟩ := whenAlike_of_not halike
    exact .of_refused ((concatRows_eq_whenAlike parts).trans hr) halike

theorem sound_stack {parts : List (Tensor α)} (h : ∀ p ∈ parts, p.WellFormed) : (stack parts).Sound := by
  by_cases halike : Alike shape parts
  · obtain ⟨hne, inner, hinner⟩ := halike
    have hfits := fits_map_data hinner h
    exact .of_eq (stack_eq_ofRows hne hinner) ⟨hne, inner, hinner⟩ hfits.wellFormed ⟨hinner, hfits.rows_ofRows⟩
  · obtain ⟨r, hr⟩ := whenAlike_of_not halike
    exact .of_refused ((stack_eq_whenAlike parts).trans hr) halike

theorem sound_gather (lists : List (List Nat)) {t : Tensor α} (h : t.WellFormed) : (gather lists t).Sound where
  within := gatherIn_ne_outOfRange .unbounded (Nat.le_of_eq h.symm) lists
  ok := exists_gatherIn_iff .unbounded h lists
  made := fun _ hu => ⟨(gathers_of_gatherIn hu).wellFormed, gathers_of_gatherIn hu⟩

/-- An operation on well-formed arrays is sound. -/
theorem sound (op : Operation α) (h : ∀ t ∈ op.arguments, t.WellFormed) : op.Sound := by
  cases op with
  | make shape data => exact sound_make shape data
  | zeros shape => exact .of_eq rfl trivial List.length_replicate rfl
  | scalar value => exact .of_eq rfl trivial rfl rfl
  | ofList values => exact .of_eq rfl trivial (Nat.mul_one _).symm rfl
  | reshape shape t => exact sound_reshape shape t
  | selectRows flags t => exact sound_selectRows flags (h t List.mem_cons_self)
  | sumRows t => exact sound_sumRows (h t List.mem_cons_self)
  | concatRows parts => exact sound_concatRows h
  | stack parts => exact sound_stack h
  | gather lists t => exact sound_gather lists (h t List.mem_cons_self)

end Operation

/-! ## Programs -/

namespace Operation

variable [Scalar α]

/-- The arrays that operations make; one that is refused makes none. -/
def arrays (ops : List (Operation α)) : List (Tensor α) := ops.filterMap (·.outcome.toOption)

/-- Every operation is applied to arrays made by the operations before it. -/
inductive InOrder : List (Operation α) → Prop
  | nil : InOrder []
  | snoc {ops : List (Operation α)} {op : Operation α} : InOrder ops → op.arguments ⊆ arrays ops → InOrder (ops ++ [op])

theorem mem_arrays {ops : List (Operation α)} {t : Tensor α} : t ∈ arrays ops ↔ ∃ op ∈ ops, op.outcome = .ok t := by
  simp only [arrays, List.mem_filterMap]
  refine exists_congr fun op => and_congr_right fun _ => ?_
  cases op.outcome <;> simp [Except.toOption]

/-- Programs of operations are sound, operation by operation. -/
theorem InOrder.sound {ops : List (Operation α)} (h : InOrder ops) : ∀ op ∈ ops, op.Sound := by
  induction h with
  | nil => simp
  | @snoc ops op _ harguments ih =>
    have hop : op.Sound := Operation.sound op fun t ht => by
      obtain ⟨earlier, hearlier, hmade⟩ := mem_arrays.1 (harguments ht)
      exact ((ih earlier hearlier).made t hmade).1
    simpa [or_imp, forall_and] using ⟨ih, hop⟩

theorem InOrder.wellFormed {ops : List (Operation α)} (h : InOrder ops) {t : Tensor α} (ht : t ∈ arrays ops) :
    t.WellFormed := by
  obtain ⟨op, hop, hmade⟩ := mem_arrays.1 ht
  exact ((h.sound op hop).made t hmade).1

/-- In a program of operations on arrays made before, every operation succeeds exactly when it is applicable, makes a
well-formed array with the rows it should have, and reads nothing outside the elements. Nor do the rows of an array
that was made, all of them or a single one, unless its number is past the last row. Selecting from joined arrays is
joining what is selected from each. -/
theorem program_sound {ops : List (Operation α)} (h : InOrder ops) :
    (∀ op ∈ ops, op.Sound) ∧
    (∀ t ∈ arrays ops, t.data.length = volume t.shape ∧ t.rows = .ok t.rowList ∧
      ∀ i, t.row i = if i < t.rowCount ∨ t.rowWidth = 0 then .ok (t.rowAt i) else .error .outOfRange) ∧
    ∀ parts : List (Tensor α × List Bool), (∀ p ∈ parts, p.1 ∈ arrays ops ∧ p.2.length = p.1.rowCount) →
      (do (← Tensor.concatRows (parts.map Prod.fst)).selectRows (parts.flatMap Prod.snd)) =
        (do Tensor.concatRows (← parts.mapM fun p => p.1.selectRows p.2)) := by
  refine ⟨h.sound, fun t ht => ?_, fun parts hparts => ?_⟩
  · have hwf := h.wellFormed ht
    exact ⟨hwf, hwf.rows_eq, hwf.row_eq⟩
  · exact selectRows_concatRows (fun p hp => h.wellFormed (hparts p hp).1) fun p hp => (hparts p hp).2

/-- Three numbers, each as a row, without the second one. -/
theorem program_sound_table : let table : Tensor ℚ := ⟨[3, 1], [1, 2, 3]⟩
    InOrder [ofList [1, 2, 3], reshape [3, 1] ⟨[3], [1, 2, 3]⟩, selectRows [true, false, true] table] ∧
    ∃ u, table.selectRows [true, false, true] = .ok u ∧ u.rows = .ok [[1], [3]] := by
  intro table
  have hlist : InOrder [ofList ([1, 2, 3] : List ℚ)] := .snoc .nil (List.nil_subset _)
  have htable : InOrder [ofList [1, 2, 3], reshape [3, 1] ⟨[3], ([1, 2, 3] : List ℚ)⟩] := by
    refine .snoc hlist ?_
    rintro t (_ | ⟨_, ⟨⟩⟩)
    exact mem_arrays.2 ⟨ofList [1, 2, 3], List.mem_cons_self, rfl⟩
  have h : InOrder [ofList [1, 2, 3], reshape [3, 1] ⟨[3], [1, 2, 3]⟩, selectRows [true, false, true] table] := by
    refine .snoc htable ?_
    rintro t (_ | ⟨_, ⟨⟩⟩)
    exact mem_arrays.2 ⟨reshape [3, 1] ⟨[3], [1, 2, 3]⟩, by simp, rfl⟩
  obtain ⟨hsound, -, -⟩ := program_sound h
  have hselect : (selectRows [true, false, true] table).Sound := hsound _ (by simp)
  obtain ⟨u, hu⟩ := hselect.ok.2 rfl
  exact ⟨h, u, hu, (hselect.made u hu).2.2⟩

end Operation
end ShotTally.Tensor
