/-
An average that starts from a vacant shelf: it leaves there the averages of the blocks that it keeps
and that hold data, that of all files if it is kept, and nothing else.
-/
import ShotTally.Proofs.Run.Gathering

namespace ShotTally

open Binary (Fits)

/-- Averages in blocks: what is recalled and kept are full blocks, and all files if that is wanted. -/
def AverageOptions.inBlocks (size : Nat) (saveTotal : Bool) : AverageOptions :=
  { useCache := true, makeCache := true, blockSize := some size, saveIncomplete := false, saveTotal := saveTotal }

variable {α : Type} [Scalar α] [Binary α]

namespace Run

variable {r : Run} {d : Disk} {q : Query} {shelf : Shelf} {keys : List String}

omit [Scalar α] [Binary α] in
theorem held_of_shelf {β : Type} [Binary β] (hshelf : r.shelf = some shelf) (operation : Cache.Operation)
    (key : String) :
    (r.held d operation key : Option β) =
      (shelf.load d operation.name key : Option (Artifact β) × List Notice).1.map (·.value) := by
  unfold held
  rw [hshelf]

omit [Scalar α] [Binary α] in
/-- On a stocked shelf a value is held under the keys that are there. -/
theorem isSome_held {β : Type} [Binary β] (hshelf : r.shelf = some shelf) {operation : Cache.Operation}
    (hs : shelf.Stocked β operation keys d) (files : List String) :
    (r.held d operation (r.keyFor operation files q) : Option β).isSome =
      decide (r.keyFor operation files q ∈ keys) := by
  rw [held_of_shelf hshelf, Option.isSome_map, keyFor, Cache.key]
  exact hs.isSome_load _

/-- The file lists whose averages are kept. -/
def keptLists (r : Run) (d : Disk) (q : Query) (size : Nat) (saveTotal : Bool) : List (List String) :=
  (Cache.chunks size (r.files.length / size) r.files).filter (·.any (r.holdsData d q)) ++
    if saveTotal && decide (1 < (Cache.chunks size r.files.length r.files).length) then [r.files] else []

/-- The keys of these lists. -/
def keptKeys (r : Run) (d : Disk) (q : Query) (size : Nat) (saveTotal : Bool) : List String :=
  (r.keptLists d q size saveTotal).map fun files => r.keyFor .average files q

omit [Scalar α] in
theorem recallsBlock_inBlocks (size : Nat) (saveTotal : Bool) (files : List String) :
    r.recallsBlock α d q (.inBlocks size saveTotal) files =
      (r.held d .average (r.keyFor .average files q) : Option (WeightedAverage α)).isSome := by
  unfold recallsBlock AverageOptions.inBlocks
  simp

theorem wantsBlock_inBlocks (size : Nat) (saveTotal : Bool) (files : List String) :
    wantsBlock (.inBlocks size saveTotal) files = (files.length == size) := by
  unfold wantsBlock AverageOptions.inBlocks
  simp

variable [Binary.Lawful α]

/-- An average that starts from a vacant shelf stocks it with the lists that are kept; the plan is settled
afterwards. -/
theorem stocked_average (hshelf : r.shelf = some shelf) {size : Nat} (hsize : 0 < size) {saveTotal : Bool}
    {s s' : Scene} {a : RunAverage α} (hvacant : shelf.Vacant .average s.disk) (hnow : Fits s.now)
    (hwrite : ∀ plan, r.planOn s.disk s.memory.offset q.splits = .ok plan →
      ∀ x ∈ r.averageQuestions q (some size), x.Writable α (r.store.load s.disk) plan (some size))
    (h : (r.average q (.inBlocks size saveTotal)).run s = (.ok a, s')) :
    shelf.Stocked (WeightedAverage α) .average (r.keptKeys s.disk q size saveTotal) s'.disk ∧
      (r.settledPlan s'.memory.offset q.splits).isSome := by
  have hs : shelf.Stocked (WeightedAverage α) .average [] s.disk := hvacant.stocked
  -- the shelf is vacant, so nothing is recalled: neither the whole nor a block
  have hmiss : ∀ files, (r.held s.disk .average (r.keyFor .average files q) : Option (WeightedAverage α)) = none := by
    intro files
    have hnone := isSome_held (q := q) hshelf hs files
    simpa using hnone
  have hpos : (AverageOptions.inBlocks size saveTotal).blockSize ≠ some 0 :=
    fun he => absurd (Option.some.inj he) (Nat.ne_of_gt hsize)
  obtain ⟨rules, plan, parts, hf⟩ := exists_fills hshelf hpos (fun _ => hmiss r.files) h
  have hrecalls : ∀ files, r.recallsBlock α s.disk q (.inBlocks size saveTotal) files = false := fun files => by
    rw [recallsBlock_inBlocks, hmiss, Option.isSome_none]
  have hwrite := hwrite plan hf.planned
  have htotal := hf.total fun files _ htrue => by
    rw [hrecalls] at htrue
    cases htrue
  have ha : Fits a.average := (hwrite _ List.mem_cons_self).average rfl rules _ hf.compile htotal
  have hstocked := Shelf.Stocked.saves hf.saves hf.keyed (hf.fits hpos hnow hwrite ha) hs
  refine ⟨?_, Option.isSome_iff_exists.2 ⟨_, hf.settled⟩⟩
  have hkeys : parts.map (·.key) = (parts.map (·.files)).map fun files => r.keyFor .average files q := by
    rw [List.map_map]
    exact List.map_congr_left hf.key
  have hblocks : Cache.blocksOf (AverageOptions.inBlocks size saveTotal).blockSize r.files =
      Cache.chunks size r.files.length r.files := Cache.blocksOf_of_pos hsize r.files
  -- the blocks kept are the full ones with data
  have hkept : parts.map (·.files) = (Cache.chunks size (r.files.length / size) r.files).filter
      (·.any (r.holdsData s.disk q)) := by
    rw [hf.files, hblocks, ← Cache.filter_full_chunks hsize, List.filter_filter]
    refine List.filter_congr fun files _ => ?_
    rw [hrecalls, wantsBlock_inBlocks, Bool.not_false, Bool.true_and, Bool.and_comm]
  have htotal : keepsTotal (.inBlocks size saveTotal) (Cache.chunks size r.files.length r.files) =
      (saveTotal && decide (1 < (Cache.chunks size r.files.length r.files).length)) := rfl
  rw [List.nil_append, deposits, withWhole, List.map_append, hkeys, hkept, hblocks, htotal,
    apply_ite (List.map _)] at hstocked
  rw [keptKeys, keptLists, List.map_append, apply_ite (List.map _)]
  exact hstocked

end Run
end ShotTally
