/-
Blocks some of whose averages were recalled. Where each of those is what the block comes to,
computing the others alone comes to the same as computing all of them, the first fault included.
-/
import ShotTally.Proofs.Run.Names

namespace ShotTally

variable {α : Type} [Scalar α]

namespace ReadingPlan

variable {plan : ReadingPlan} {load : String → Outcome ShotFile} {q : Query} {rules : List Rule.Predicate}

/-- A single block comes to its average. -/
theorem totalOf_single (files : List String) :
    (plan.totalOf load q rules [files] : Outcome (Option (WeightedAverage α))) =
      plan.blockAverage load q rules files := by
  unfold totalOf readBlocks blockAverage
  rw [List.mapM_cons, List.mapM_nil]
  rcases files.mapM (plan.averageOf load q rules : String → Outcome (Option (WeightedAverage α))) with e | averages
  · rfl
  · simp only [ok_bind, pure_eq_ok, List.mapM_cons, List.mapM_nil]
    rcases foldPresent averages with e | _ | v <;> rfl

variable (plan load q rules)

/-- The averages of the files of a block that was not recalled. -/
def freshOf (p : Run.Piece α) : Outcome (List (Option (WeightedAverage α))) :=
  match p.found with
  | some _ => .ok []
  | none => p.block.files.mapM (plan.averageOf load q rules)

/-- The average of a block, recalled or fresh. -/
def settledOf (p : Run.Piece α) (averages : List (Option (WeightedAverage α))) : Outcome (Option (WeightedAverage α)) :=
  match p.found with
  | some v => .ok (some v)
  | none => foldPresent averages

variable {plan load q rules}

/-- Only the files of the block are loaded. -/
theorem freshOf_congr {load' : String → Outcome ShotFile} {p : Run.Piece α}
    (h : ∀ name ∈ p.block.files, load name = load' name) :
    plan.freshOf load q rules p = plan.freshOf load' q rules p := by
  unfold freshOf
  rw [mapM_congr_left fun name hname => averageOf_congr (h name hname)]

/-- What was recalled for a block is what it comes to. -/
def Truthful (plan : ReadingPlan) (load : String → Outcome ShotFile) (q : Query) (rules : List Rule.Predicate)
    (p : Run.Piece α) : Prop :=
  ∀ v, p.found = some v → plan.blockAverage load q rules p.block.files = .ok (some v)

theorem readBlocks_cons (files : List String) (blocks : List (List String)) :
    (plan.readBlocks load q rules (files :: blocks) : Outcome (List (List (Option (WeightedAverage α))))) =
      (do return (← files.mapM (plan.averageOf load q rules)) :: (← plan.readBlocks load q rules blocks)) := by
  unfold readBlocks
  rw [List.mapM_cons]

/-- A fault in reading shows with or without what was recalled. -/
theorem mapM_freshOf_error {e : Failure} : ∀ {pieces : List (Run.Piece α)},
    (∀ p ∈ pieces, Truthful plan load q rules p) →
    (plan.readBlocks load q rules (pieces.map fun p => p.block.files) :
      Outcome (List (List (Option (WeightedAverage α))))) =
      .error e →
    pieces.mapM (plan.freshOf load q rules) = .error e
  | [], _, h => by cases h
  | p :: pieces, ht, h => by
    have ih := mapM_freshOf_error (e := e) fun p' hp' => ht p' (List.mem_cons_of_mem p hp')
    rw [List.map_cons, readBlocks_cons] at h
    rw [List.mapM_cons]
    rcases hf : p.block.files.mapM (plan.averageOf load q rules : String → Outcome (Option (WeightedAverage α)))
      with e' | averages
    -- the block cannot have been recalled: its average would be that of files that fail
    · have hnone : p.found = none := by
        rcases hp : p.found with _ | v
        · rfl
        · have hb := ht p (by simp) v hp
          rw [blockAverage, hf] at hb
          cases hb
      rw [hf] at h
      rw [freshOf, hnone]
      dsimp only
      rw [hf]
      cases h
      rfl
    · rw [hf, ok_bind] at h
      -- this block gives something in both ways, so the failure is further on
      have hfresh : ∃ a, plan.freshOf load q rules p = .ok a := by
        unfold freshOf
        rcases p.found with _ | v
        · exact ⟨averages, hf⟩
        · exact ⟨[], rfl⟩
      obtain ⟨a, ha⟩ := hfresh
      rcases hrest : (plan.readBlocks load q rules (pieces.map fun p => p.block.files) :
          Outcome (List (List (Option (WeightedAverage α))))) with e' | rest
      · rw [hrest] at h
        cases h
        rw [ha, ok_bind, ih hrest]
        rfl
      · rw [hrest] at h; cases h

/-- When all files can be read, the blocks come to the same. -/
theorem mapM_settledOf : ∀ {pieces : List (Run.Piece α)} {fresh : List (List (Option (WeightedAverage α)))},
    (∀ p ∈ pieces, Truthful plan load q rules p) →
    plan.readBlocks load q rules (pieces.map fun p => p.block.files) = .ok fresh →
    ∃ some, pieces.mapM (plan.freshOf load q rules) = .ok some ∧
      ((pieces.zip some).mapM fun pair => settledOf pair.1 pair.2) = fresh.mapM foldPresent
  | [], fresh, _, h => by cases h; exact ⟨[], rfl, rfl⟩
  | p :: pieces, fresh, ht, h => by
    rw [List.map_cons, readBlocks_cons] at h
    obtain ⟨averages, hf, h⟩ := bind_eq_ok.1 h
    obtain ⟨rest, hrest, h⟩ := bind_eq_ok.1 h
    cases h
    obtain ⟨others, ho, hs⟩ := mapM_settledOf (fun p' hp' => ht p' (List.mem_cons_of_mem p hp')) hrest
    -- a recalled piece settles to its average, which is what its files would give
    have hp : ∃ a, plan.freshOf load q rules p = .ok a ∧ settledOf p a = foldPresent averages := by
      unfold freshOf settledOf
      rcases hp : p.found with _ | v
      · exact ⟨averages, hf, rfl⟩
      · have hb := ht p (by simp) v hp
        rw [blockAverage, hf, ok_bind] at hb
        exact ⟨[], rfl, hb.symm⟩
    obtain ⟨a, ha, hsa⟩ := hp
    refine ⟨a :: others, ?_, ?_⟩
    · rw [List.mapM_cons, ha, ok_bind, ho]; rfl
    · rw [List.zip_cons_cons, List.mapM_cons, List.mapM_cons, hsa, hs]

/-- Computing only what was not recalled comes to the average over all blocks. -/
theorem totalOf_pieces {pieces : List (Run.Piece α)} (ht : ∀ p ∈ pieces, Truthful plan load q rules p) :
    plan.totalOf load q rules (pieces.map fun p => p.block.files) =
      pieces.mapM (plan.freshOf load q rules) >>= fun fresh =>
        ((pieces.zip fresh).mapM fun pair => settledOf pair.1 pair.2) >>= foldPresent := by
  unfold totalOf
  rcases hf : (plan.readBlocks load q rules (pieces.map fun p => p.block.files) :
      Outcome (List (List (Option (WeightedAverage α))))) with e | fresh
  · rw [hf, mapM_freshOf_error ht hf]; rfl
  · obtain ⟨some, hsome, hs⟩ := mapM_settledOf ht hf
    rw [hf, hsome, ok_bind, ok_bind, hs]

end ReadingPlan
end ShotTally
