/-
The buckets of a file: one for each condition and rule, with rows of one shape and as many elements
as that calls for.
-/
import ShotTally.Proofs.Bucket.Sorting

namespace ShotTally

variable {α : Type}

namespace Tensor

theorem length_keepRows {width : Nat} :
    ∀ {flags : List Bool} {data kept : List α}, keepRows width flags data = .ok kept →
    kept.length = flags.count true * width
  | [], data, kept, h => by
    cases h
    exact (Nat.zero_mul _).symm
  | true :: flags, data, kept, h => by
    unfold keepRows at h
    obtain ⟨⟨first, rest⟩, hfirst, h⟩ := bind_eq_ok.1 h
    obtain ⟨others, hothers, h⟩ := bind_eq_ok.1 h
    cases h
    have hlen : first.length = width := by
      unfold takeExactly at hfirst
      dsimp only at hfirst
      split at hfirst
      · rename_i hw
        cases hfirst
        exact hw
      · cases hfirst
    rw [List.length_append, length_keepRows hothers, hlen, List.count_cons_self, Nat.succ_mul, Nat.add_comm]
  | false :: flags, data, kept, h => by
    unfold keepRows at h
    rw [length_keepRows h, List.count_cons_of_ne (by decide)]

/-- Selected rows keep their shape. -/
theorem selectRows_eq_ok {flags : List Bool} {t u : Tensor α} (h : t.selectRows flags = .ok u) :
    u.innerShape = t.innerShape ∧ u.WellFormed := by
  unfold selectRows at h
  split at h
  · cases h
  · obtain ⟨kept, hkept, h⟩ := bind_eq_ok.1 h
    cases h
    exact ⟨rfl, length_keepRows hkept⟩

end Tensor

namespace ReadingPlan

variable [Scalar α] {plan : ReadingPlan} {file : ShotFile} {name : String} {q : Query} {rules : List Rule.Predicate}

/-- There are four conditions, and a selection for each rule. -/
theorem selected_length {perShot : Bool} {shots : List Int} {selections : Selections}
    (h : (if perShot then plan.shotSelections file q.splits rules shots else .ok (selectSingle rules)) = .ok selections) :
    selections.conditions.length = 4 ∧ selections.rules.length = rules.length := by
  cases perShot with
  | false =>
    cases h
    exact ⟨rfl, List.length_map _⟩
  | true =>
    obtain ⟨masks, hmasks, h⟩ := bind_eq_ok.1 h
    cases h
    exact ⟨rfl, (mapM_eq_ok.1 hmasks).length_eq.symm⟩

omit [Scalar α] in
theorem bucketRows_eq_ok {selections : Selections} {data : Tensor α} {rows : List (Tensor α)}
    (h : bucketRows selections data = .ok rows) : rows.length = selections.conditions.length * selections.rules.length ∧
      ∀ t ∈ rows, t.innerShape = data.innerShape ∧ t.WellFormed := by
  have hall := mapM_eq_ok.1 h
  constructor
  · rw [← hall.length_eq, List.length_flatMap]
    simp
  · intro t ht
    obtain ⟨mask, -, hmask⟩ := exists_of_mem_mapM h ht
    exact Tensor.selectRows_eq_ok hmask

/-- A file is sorted into a bucket for each condition and rule, all with rows of one shape. -/
theorem even_of_sorted {b : FileBuckets α} (h : plan.sorted file name q rules = .ok (some b)) :
    b.bucketShape = q.bucketShape ∧ rules.length = q.rules.length ∧ b.rows.length = volume q.bucketShape ∧
      ∃ inner, ∀ t ∈ b.rows, t.innerShape = inner ∧ t.WellFormed := by
  obtain ⟨hlen, shots, -, ⟨-, hb⟩ | ⟨array, layout, data, perShot, selections, rows, hs, hb⟩⟩ := sorted_eq_ok.1 h
  · cases hb
  · cases hb
    obtain ⟨hc, hr⟩ := selected_length hs.selected
    obtain ⟨hn, hrows⟩ := bucketRows_eq_ok hs.bucketed
    refine ⟨rfl, hlen, ?_, _, hrows⟩
    show rows.length = 4 * (q.rules.length * 1)
    rw [hn, hc, hr, hlen, Nat.mul_one]

end ReadingPlan
end ShotTally
