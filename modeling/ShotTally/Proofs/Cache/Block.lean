/-
Blocks of files: they are the files in order, none of them empty or larger than it may be, and a
block taken alone is cut into itself.
-/
import Mathlib.Data.List.Forall2
import ShotTally.Cache.Block
import ShotTally.Proofs.Outcome

namespace ShotTally.Cache

/-- The files of each block; a block size of zero gives none. -/
def blocksOf : Option Nat → List String → List (List String)
  | none, files => [files]
  | some 0, _ => []
  | some (size + 1), files => chunks (size + 1) files.length files

theorem planBlocks_eq_ok {size : Option Nat} (h : size ≠ some 0) (files : List String) :
    ∃ blocks, planBlocks files size = .ok blocks ∧ blocks.map Block.files = blocksOf size files := by
  rcases size with _ | _ | n
  · exact ⟨_, rfl, rfl⟩
  · exact absurd rfl h
  · refine ⟨_, rfl, ?_⟩
    rw [List.map_map]
    exact List.map_id _

section

variable {size : Nat}

theorem blocksOf_of_pos (hs : 0 < size) (files : List String) :
    blocksOf (some size) files = chunks size files.length files := by
  cases size with
  | zero => cases hs
  | succ n => rfl

theorem planBlocks_of_pos (hs : 0 < size) (files : List String) : planBlocks files (some size) =
    .ok ((chunks size files.length files).map fun part => ⟨part, part.length == size⟩) := by
  cases size with
  | zero => cases hs
  | succ n => rfl

theorem chunks_nil : ∀ n : Nat, chunks size n [] = []
  | 0 => rfl
  | _ + 1 => rfl

theorem chunks_cons (n : Nat) (f : String) (files : List String) : chunks size (n + 1) (f :: files) =
    (f :: files).take size :: chunks size n ((f :: files).drop size) := rfl

theorem flatten_chunks (hs : 0 < size) : ∀ {n : Nat} {files : List String}, files.length ≤ n →
    (chunks size n files).flatten = files
  | 0, [], _ => rfl
  | n + 1, [], _ => rfl
  | n + 1, f :: files, h => by
    have hd : ((f :: files).drop size).length ≤ n := by
      rw [List.length_drop, List.length_cons] at *
      omega
    rw [chunks_cons, List.flatten_cons, flatten_chunks hs hd, List.take_append_drop]

theorem mem_chunks (hs : 0 < size) : ∀ {n : Nat} {files block : List String}, block ∈ chunks size n files →
    block ≠ [] ∧ block.length ≤ size
  | 0, _, _, h => by cases h
  | n + 1, [], _, h => by cases h
  | n + 1, f :: files, block, h => by
    rw [chunks_cons, List.mem_cons] at h
    rcases h with rfl | h
    · obtain ⟨m, rfl⟩ := Nat.exists_eq_add_of_lt hs
      rw [Nat.zero_add, List.take_succ_cons]
      exact ⟨List.cons_ne_nil _ _, by rw [List.length_cons, List.length_take]; omega⟩
    · exact mem_chunks hs h

theorem chunks_of_length_le {block : List String} (hne : block ≠ []) (h : block.length ≤ size) :
    chunks size block.length block = [block] := by
  obtain ⟨f, files, rfl⟩ := List.exists_cons_of_ne_nil hne
  rw [List.length_cons, chunks_cons, List.take_of_length_le h, List.drop_eq_nil_of_le h, chunks_nil]

theorem sublist_of_mem_chunks :
    ∀ {n : Nat} {files block : List String}, block ∈ chunks size n files → block.Sublist files
  | 0, _, _, h => by cases h
  | n + 1, [], _, h => by cases h
  | n + 1, f :: files, block, h => by
    rw [chunks_cons, List.mem_cons] at h
    rcases h with rfl | h
    · exact List.take_sublist size _
    · exact (sublist_of_mem_chunks h).trans (List.drop_sublist size _)

/-- Some blocks, and then blocks of what is left. -/
theorem chunks_add (n : Nat) : ∀ (m : Nat) (files : List String),
    chunks size (m + n) files = chunks size m files ++ chunks size n (files.drop (m * size))
  | 0, files => by simp [chunks]
  | m + 1, [] => by simp [chunks_nil]
  | m + 1, f :: files => by
    rw [Nat.add_right_comm, chunks_cons, chunks_cons, chunks_add n m, List.drop_drop, List.cons_append, Nat.add_mul,
      Nat.one_mul, Nat.add_comm size]

/-- Blocks that are full stay when more files are added. -/
theorem chunks_append (hs : 0 < size) (more : List String) :
    ∀ {m : Nat} {files : List String}, m * size ≤ files.length →
    chunks size m (files ++ more) = chunks size m files
  | 0, _, _ => rfl
  | m + 1, [], h => by
    have hpos : 0 < (m + 1) * size := Nat.mul_pos m.succ_pos hs
    rw [List.length_nil] at h
    omega
  | m + 1, f :: files, h => by
    rw [Nat.add_mul, Nat.one_mul] at h
    have hd : m * size ≤ ((f :: files).drop size).length := by
      rw [List.length_drop]
      omega
    rw [List.cons_append, chunks_cons, chunks_cons, ← List.cons_append, List.take_append_of_le_length (by omega),
      List.drop_append_of_le_length (by omega), chunks_append hs more hd]

theorem length_of_mem_chunks : ∀ {m : Nat} {files block : List String}, m * size ≤ files.length →
    block ∈ chunks size m files → block.length = size
  | 0, _, _, _, hb => by cases hb
  | m + 1, [], _, _, hb => by cases hb
  | m + 1, f :: files, block, h, hb => by
    rw [Nat.add_mul, Nat.one_mul] at h
    have hd : m * size ≤ ((f :: files).drop size).length := by
      rw [List.length_drop]
      omega
    rw [chunks_cons, List.mem_cons] at hb
    rcases hb with rfl | hb
    · rw [List.length_take]
      omega
    · exact length_of_mem_chunks hd hb

/-- The blocks that have their full number of files come first. -/
theorem filter_full_chunks (hs : 0 < size) (files : List String) :
    (chunks size files.length files).filter (·.length == size) = chunks size (files.length / size) files := by
  have hle : files.length / size * size ≤ files.length := Nat.div_mul_le_self _ _
  -- the full blocks come first, and the one behind them is shorter
  have hsplit : files.length = files.length / size + (files.length - files.length / size) := by
    have := Nat.div_le_self files.length size
    omega
  have hfull : ∀ block ∈ chunks size (files.length / size) files, (block.length == size) = true := fun block hb =>
    beq_iff_eq.2 (length_of_mem_chunks hle hb)
  have hrest : ∀ block ∈ chunks size (files.length - files.length / size) (files.drop (files.length / size * size)),
      ¬ (block.length == size) = true := by
    intro block hb
    have hlength := (sublist_of_mem_chunks hb).length_le
    have hmod := Nat.div_add_mod' files.length size
    have hlt := Nat.mod_lt files.length hs
    rw [List.length_drop] at hlength
    rw [beq_iff_eq]
    omega
  rw [hsplit, chunks_add, List.filter_append, ← hsplit, List.filter_eq_self.2 hfull, List.filter_eq_nil_iff.2 hrest,
    List.append_nil]

/-- Behind fewer files than a block has, more files reach into every block. -/
theorem exists_mem_of_mem_chunks : ∀ {n : Nat} {rest added block : List String}, rest.length < size → added ≠ [] →
    block ∈ chunks size n (rest ++ added) → ∃ f ∈ block, f ∈ added
  | 0, _, _, _, _, _, hb => by cases hb
  | n + 1, rest, added, block, hl, hne, hb => by
    obtain ⟨first, others, rfl⟩ := List.exists_cons_of_ne_nil hne
    obtain ⟨f, files, hfiles⟩ := List.exists_cons_of_ne_nil (List.append_ne_nil_of_right_ne_nil rest hne)
    rw [hfiles, chunks_cons, ← hfiles, List.mem_cons] at hb
    rcases hb with rfl | hb
    -- the rest is shorter than a block, so the first block takes a new file too
    · refine ⟨first, ?_, by simp⟩
      rw [List.take_append, List.mem_append]
      obtain ⟨more, hmore⟩ := Nat.exists_eq_add_of_lt hl
      exact .inr (by rw [show size - rest.length = more + 1 by omega]; simp)
    · rw [List.drop_append, List.drop_eq_nil_of_le (Nat.le_of_lt hl)] at hb
      rcases hd : (first :: others).drop (size - rest.length) with _ | ⟨f', files'⟩
      · rw [hd, List.append_nil, chunks_nil] at hb
        cases hb
      · obtain ⟨g, hg, hmem⟩ := exists_mem_of_mem_chunks (Nat.lt_of_le_of_lt (Nat.zero_le _) hl) (by simp [hd]) hb
        exact ⟨g, hg, List.mem_of_mem_drop hmem⟩

theorem forall₂_chunks {R : String → String → Prop} : ∀ {n : Nat} {files files' : List String},
    List.Forall₂ R files files' → List.Forall₂ (List.Forall₂ R) (chunks size n files) (chunks size n files')
  | 0, _, _, _ => .nil
  | n + 1, _, _, .nil => .nil
  | n + 1, _ :: _, _ :: _, .cons h hs => by
    have hall := List.Forall₂.cons h hs
    exact .cons (List.forall₂_take size hall) (forall₂_chunks (List.forall₂_drop size hall))

end

/-- The blocks are the files in order. -/
theorem flatten_blocksOf {size : Option Nat} (h : size ≠ some 0) (files : List String) :
    (blocksOf size files).flatten = files := by
  rcases size with _ | _ | n
  · simp [blocksOf]
  · exact absurd rfl h
  · exact flatten_chunks (Nat.succ_pos n) (Nat.le_refl _)

/-- Blocks hold files of the run only. -/
theorem subset_of_mem_blocksOf {size : Option Nat} {files block : List String} (hb : block ∈ blocksOf size files) :
    block ⊆ files := by
  rcases size with _ | _ | n
  · rw [List.mem_singleton.1 hb]
    exact List.Subset.refl files
  · cases hb
  · exact (sublist_of_mem_chunks hb).subset

/-- A block is cut into itself. -/
theorem blocksOf_block {size : Option Nat} (h : size ≠ some 0) {files block : List String}
    (hb : block ∈ blocksOf size files) : blocksOf size block = [block] := by
  rcases size with _ | _ | n
  · rfl
  · exact absurd rfl h
  · obtain ⟨hne, hl⟩ := mem_chunks (Nat.succ_pos n) hb
    exact chunks_of_length_le hne hl

theorem forall₂_blocksOf {R : String → String → Prop} (size : Option Nat) {files files' : List String}
    (h : List.Forall₂ R files files') : List.Forall₂ (List.Forall₂ R) (blocksOf size files) (blocksOf size files') := by
  rcases size with _ | _ | n
  · exact .cons h .nil
  · exact .nil
  · show List.Forall₂ _ (chunks (n + 1) files.length files) (chunks (n + 1) files'.length files')
    rw [h.length_eq]
    exact forall₂_chunks h

end ShotTally.Cache
