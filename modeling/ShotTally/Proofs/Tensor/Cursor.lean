/-
Gathering with a cursor. The cursor has for each axis a place in the list of its positions. One step takes it to
the next combination of places in row-major order, carrying over to the axis before when an axis is at its end, so
that it comes to each of them once; and the strides take each combination to the offset of its element. In words
this is so as long as words hold the number of combinations and the offsets.
-/
import ShotTally.Proofs.Number.Word
import ShotTally.Proofs.Outcome
import ShotTally.Proofs.Tensor.Places

namespace ShotTally.Tensor

variable {α : Type}

/-! ## The cursor -/

/-- One step of a cursor: to the combination of places behind its own, or round to the first one from the last. -/
theorem advance_cases {sizes cursor : List Nat} (h : Within sizes cursor) :
    (∃ next, advance sizes cursor = (false, next) ∧ Within sizes next ∧ offset sizes next = offset sizes cursor + 1) ∨
    (advance sizes cursor = (true, first sizes) ∧ offset sizes cursor + 1 = volume sizes) := by
  induction h with
  | nil => exact .inr ⟨rfl, rfl⟩
  | @cons i n cursor sizes hi hcursor ih =>
    rcases ih with ⟨next, hnext, hwithin, hoffset⟩ | ⟨hround, hlast⟩
    · refine .inl ⟨i :: next, ?_, .cons hi hwithin, ?_⟩
      · rw [advance, hnext]
      · rw [offset, offset, hoffset, Nat.add_assoc]
    -- the axes behind have come round, so this one goes on or comes round too
    · by_cases hend : i + 1 < n
      · refine .inl ⟨(i + 1) :: first sizes, ?_, .cons hend (within_first (by omega)), ?_⟩
        · rw [advance, hround]
          exact if_pos hend
        · rw [offset, offset, offset_first, Nat.add_mul]
          omega
      · refine .inr ⟨?_, ?_⟩
        · rw [advance, hround]
          exact if_neg hend
        · obtain rfl : n = i + 1 := by omega
          rw [offset, volume_cons, Nat.add_mul]
          omega

/-! ## Offsets of cursors -/

/-- Behind the strides of some axes their product is carried on. -/
theorem strides_cons (a : Arithmetic) (n : Nat) (shape : List Nat) :
    strides a (n :: shape) = a.count (volume shape) :: strides a shape := by
  have hproduct : ∀ shape : List Nat,
    (shape.foldr (fun n (s : Nat × List Nat) => (a.count (s.1 * n), s.1 :: s.2)) (1, [])).1 =
      a.count (volume shape) := by
    intro shape
    induction shape with
    | nil => exact a.count_one.symm
    | cons n shape ih =>
      rw [List.foldr_cons, ih, Arithmetic.count_count_mul, Nat.mul_comm]
      rfl
  exact congrArg (· :: _) (hproduct shape)

/-- A cursor is taken to the offset of its positions; a wrapped sum of wrapped products is the offset, wrapped. -/
theorem offsetAt_eq (a : Arithmetic) : ∀ {shape : List Nat} {lists : List (List Nat)} (cursor : List Nat),
    lists.length = shape.length →
    offsetAt a (lists.map List.toArray) (strides a shape) cursor = a.count (offset shape (through lists cursor))
  | [], [], _, _ => a.count_zero.symm
  | _ :: _, _ :: _, [], _ => a.count_zero.symm
  | n :: shape, list :: lists, i :: cursor, h => by
    have hget : list.toArray.getD i 0 = list.getD i 0 := by simp
    rw [List.map_cons, strides_cons, offsetAt, offsetAt_eq a cursor (Nat.succ.inj h), hget, Arithmetic.count_mul_count,
      Arithmetic.count_count_add_count]
    rfl

/-! ## Taking up elements -/

theorem readAt_eq_ok {data : List α} {p : Nat} {x : α} : readAt data.toArray p = .ok x ↔ data[p]? = some x := by
  unfold readAt
  rw [List.getElem?_toArray]
  cases data[p]? with
  | none => simp
  | some y => simp

/-- The loop takes up the elements at the offsets of the combinations from its cursor on, in order. -/
theorem visit_eq (a : Arithmetic) {shape : List Nat} {lists : List (List Nat)} (hlen : lists.length = shape.length)
    (data : List α) :
    ∀ {n c : Nat} {cursor : List Nat} {taken : Array α}, c + n ≤ volume (lists.map List.length) →
      (n ≠ 0 → Within (lists.map List.length) cursor ∧ offset (lists.map List.length) cursor = c) →
      visit a (lists.map List.toArray) (strides a shape) data.toArray n cursor taken =
        ((((offsets shape lists).drop c).take n).mapM fun p => readAt data.toArray (a.count p)).map (taken.toList ++ ·)
  | 0, c, cursor, taken, _, _ => by simp [visit]
  | n + 1, c, cursor, taken, hle, hcursor => by
    obtain ⟨hwithin, rfl⟩ := hcursor (Nat.succ_ne_zero n)
    have hsizes : (lists.map List.toArray).map Array.size = lists.map List.length := by simp [Function.comp_def]
    have hoffset := getElem?_offsets hlen hwithin
    obtain ⟨hin, hget⟩ := List.getElem?_eq_some_iff.1 hoffset
    -- unless this was the last position, the cursor goes on to the offset one higher
    have hnext : n ≠ 0 → Within (lists.map List.length) (advance (lists.map List.length) cursor).2 ∧
        offset (lists.map List.length) (advance (lists.map List.length) cursor).2 =
          offset (lists.map List.length) cursor + 1 := by
      intro hn
      rcases advance_cases hwithin with ⟨next, hadvance, hnext⟩ | ⟨-, hlast⟩
      · rwa [hadvance]
      · omega
    rw [visit, offsetAt_eq a cursor hlen, hsizes, List.drop_eq_getElem_cons hin, List.take_succ_cons,
      List.mapM_cons, hget]
    cases readAt data.toArray (a.count (offset shape (through lists cursor))) with
    | error e => rfl
    | ok x =>
      rw [ok_bind, ok_bind, visit_eq a hlen data (by omega) hnext, Array.toList_push]
      cases (((offsets shape lists).drop (offset (lists.map List.length) cursor + 1)).take n).mapM fun p =>
          readAt data.toArray (a.count p) with
      | error e => rfl
      | ok xs => simp

variable {t : Tensor α} {lists : List (List Nat)}

/-- Gathering takes up the elements at the offsets of the positions, as many as the number of combinations is counted. -/
theorem gatherIn_eq (a : Arithmetic) (h : Suits t.shape lists) : t.gatherIn a lists =
    (((offsets t.shape lists).take (a.count (volume (lists.map List.length)))).mapM fun p =>
      readAt t.data.toArray (a.count p)).map fun xs => ⟨lists.map List.length, xs⟩ := by
  have hlen : lists.length = t.rank := h.length_eq
  have hcount := a.count_le (volume (lists.map List.length))
  have hstart : a.count (volume (lists.map List.length)) ≠ 0 →
    Within (lists.map List.length) (first (lists.map List.length)) ∧
      offset (lists.map List.length) (first (lists.map List.length)) = 0 :=
    fun hne => ⟨within_first (by omega), offset_first _⟩
  unfold gatherIn
  rw [if_neg (not_not.2 hlen), (beyond_eq_none hlen 0).2 h]
  show (visit a _ _ _ _ (first _) #[] >>= _) = _
  rw [visit_eq a hlen t.data (by omega) hstart]
  simp only [List.drop_zero, List.nil_append]
  cases ((offsets t.shape lists).take (a.count (volume (lists.map List.length)))).mapM fun p =>
    readAt t.data.toArray (a.count p) <;> rfl

/-- Only lists that suit the axes are gone through. -/
theorem suits_of_gatherIn {a : Arithmetic} {g : Tensor α} (h : t.gatherIn a lists = .ok g) : Suits t.shape lists := by
  unfold gatherIn at h
  split at h
  · cases h
  · rename_i hlen
    split at h
    · cases h
    · rename_i hbeyond
      exact (beyond_eq_none (not_not.1 hlen) 0).1 hbeyond

/-- Nothing is read outside the elements if there are as many as the shape calls for: a wrapped offset is not
greater than the offset. -/
theorem exists_gatherIn (a : Arithmetic) (hdata : volume t.shape ≤ t.data.length) (h : Suits t.shape lists) :
    ∃ g, t.gatherIn a lists = .ok g := by
  have hread : ∀ p ∈ (offsets t.shape lists).take (a.count (volume (lists.map List.length))),
      ∃ x, readAt t.data.toArray (a.count p) = .ok x := by
    intro p hp
    have hlt := lt_of_mem_offsets h (List.mem_of_mem_take hp)
    have hle := a.count_le p
    exact ⟨_, readAt_eq_ok.2 (List.getElem?_eq_getElem (by omega))⟩
  obtain ⟨xs, hxs⟩ := exists_mapM hread
  exact ⟨_, (gatherIn_eq a h).trans (by rw [hxs]; rfl)⟩

theorem gatherIn_ne_outOfRange (a : Arithmetic) (hdata : volume t.shape ≤ t.data.length) (lists : List (List Nat)) :
    t.gatherIn a lists ≠ .error .outOfRange := by
  intro hfail
  have hunsuited : ¬ Suits t.shape lists := fun h => by
    obtain ⟨g, hg⟩ := exists_gatherIn a hdata h
    cases hg.symm.trans hfail
  unfold gatherIn at hfail
  split at hfail
  · cases hfail
  · rename_i hlen
    split at hfail
    · cases hfail
    · rename_i hbeyond
      exact hunsuited ((beyond_eq_none (not_not.1 hlen) 0).1 hbeyond)

/-! ## Picking block by block -/

/-- The elements at the picked positions, the last axis varying fastest: for each position along
the first axis, what the other axes pick from the block at that position. -/
def pick : List Nat → List (List Nat) → List α → Outcome (List α)
  | _ :: shape, positions :: others, data => do
    let stride := volume shape
    return (← positions.mapM fun i => pick shape others (data.drop (i * stride))).flatten
  | _, _, data => (takeExactly 1 data).map (·.1)

/-- Picking block by block reads the offsets in their order. -/
theorem pick_eq : ∀ {shape : List Nat} {lists : List (List Nat)} (data : List α), lists.length = shape.length →
    pick shape lists data = (offsets shape lists).mapM (readAt data.toArray)
  | [], [], [], _ => rfl
  | [], [], _ :: _, _ => rfl
  | n :: shape, list :: lists, data, h => by
    have hblock : ∀ i, pick shape lists (data.drop (i * volume shape)) =
        ((offsets shape lists).map (i * volume shape + ·)).mapM (readAt data.toArray) := by
      intro i
      rw [pick_eq _ (Nat.succ.inj h), List.mapM_map]
      congr 1
      funext p
      simp only [Function.comp_apply, readAt, List.getElem?_toArray, List.getElem?_drop]
    rw [offsets, mapM_flatMap]
    unfold pick
    simp only [hblock]
    cases list.mapM fun i => ((offsets shape lists).map (i * volume shape + ·)).mapM (readAt data.toArray) <;> rfl

/-- Positions on the axes can be picked if there are as many elements as the shape calls for. -/
theorem exists_pick {shape : List Nat} {lists : List (List Nat)} {data : List α} (h : Suits shape lists)
    (hdata : volume shape ≤ data.length) : ∃ picked, pick shape lists data = .ok picked := by
  rw [pick_eq _ h.length_eq]
  refine exists_mapM fun p hp => ?_
  have hlt := lt_of_mem_offsets h hp
  exact ⟨_, readAt_eq_ok.2 (List.getElem?_eq_getElem (by omega))⟩

/-- Without bounds the cursor picks what is picked block by block. -/
theorem gatherIn_unbounded (h : Suits t.shape lists) :
    t.gatherIn .unbounded lists = (pick t.shape lists t.data).map fun xs => ⟨lists.map List.length, xs⟩ := by
  rw [gatherIn_eq _ h, pick_eq _ h.length_eq]
  have hall : (offsets t.shape lists).take (Arithmetic.unbounded.count (volume (lists.map List.length))) =
      offsets t.shape lists := by
    rw [← length_offsets h.length_eq]
    exact List.take_length
  rw [hall]
  rfl

/-- In words it does so too if they hold the number of elements and the number of combinations. -/
theorem gather_eq_pick (h : Suits t.shape lists) (hshape : volume t.shape < Text.nat64End)
    (hlists : volume (lists.map List.length) < Text.nat64End) :
    t.gather lists = (pick t.shape lists t.data).map fun xs => ⟨lists.map List.length, xs⟩ := by
  have hread : (offsets t.shape lists).mapM (fun p => readAt t.data.toArray (Arithmetic.words.count p)) =
      (offsets t.shape lists).mapM (readAt t.data.toArray) :=
    mapM_congr_left fun p hp => by rw [Arithmetic.count_of_lt (Nat.lt_trans (lt_of_mem_offsets h hp) hshape)]
  rw [gather, gatherIn_eq _ h, pick_eq _ h.length_eq, Arithmetic.count_of_lt hlists, ← length_offsets h.length_eq,
    List.take_length, hread]

end ShotTally.Tensor
