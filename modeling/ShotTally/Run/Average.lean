/-
Averages over the files of a run. Files are taken in blocks; the average of a block, and that of
all files, may be recalled from the shelf and kept on it.
-/
import ShotTally.Cache.Block
import ShotTally.Run.Basic

namespace ShotTally

structure RunAverage (α : Type) where
  average : WeightedAverage α
  cache : CacheInfo
  deriving DecidableEq

namespace Run

variable {α : Type} [Scalar α] [Binary α]

/-- A block with its key, and its average if that was recalled. -/
structure Piece (α : Type) where
  block : Cache.Block
  key : String
  found : Option (WeightedAverage α)

/-- Recalls the average of a block; without a block size only the whole run is ever recalled. -/
def recallBlock (r : Run) (q : Query) (opts : AverageOptions) (totalKey : String)
    (block : Cache.Block) : Job (Piece α) := do
  if opts.blockSize.isSome then
    let key := r.keyFor .average block.files q
    let found ← if opts.useCache then r.lookUp .average key else pure none
    return ⟨block, key, found⟩
  else return ⟨block, totalKey, none⟩

/-- The averages of the files of a block that was not recalled. -/
def freshAverages (r : Run) (plan : ReadingPlan) (q : Query) (rules : List Rule.Predicate)
    (piece : Piece α) : Job (List (Option (WeightedAverage α))) :=
  match piece.found with
  | some _ => return []
  | none => piece.block.files.mapM fun name => do
    match ← r.compileFile plan q rules name with
    | none => return none
    | some buckets => return some (← Job.lift (do (← buckets.sums).average))

/-- Whether the average of a block is kept. -/
def keepsBlock (opts : AverageOptions) (block : Cache.Block) : Bool :=
  opts.makeCache && opts.blockSize.isSome && (block.complete || opts.saveIncomplete)

/-- The average of a block, kept when it was computed and is wanted. -/
def settleBlock (r : Run) (opts : AverageOptions) (piece : Piece α)
    (fresh : List (Option (WeightedAverage α))) :
    Job (Option (WeightedAverage α) × List CacheRecord) :=
  match piece.found with
  | some average => return (some average, [])
  | none => do
    match ← Job.lift (WeightedAverage.fold (fresh.filterMap id)) with
    | none => return (none, [])
    | some average =>
      let saved ← if keepsBlock opts piece.block
        then r.keep .average piece.key piece.block.files average else pure []
      return (some average, saved)

/-- The records of the pieces that were recalled. -/
def recalledPieces (r : Run) (pieces : List (Piece α)) : List CacheRecord :=
  pieces.flatMap fun p =>
    if p.found.isSome then r.recalled .average p.key p.block.files else []

/-- The average when that of the whole run was not recalled. -/
def averageByBlocks (r : Run) (q : Query) (opts : AverageOptions) (rules : List Rule.Predicate)
    (totalKey : String) : Job (RunAverage α) := do
  let blocks ← Job.lift (Cache.planBlocks r.files opts.blockSize)
  let pieces : List (Piece α) ← blocks.mapM (r.recallBlock q opts totalKey)
  let plan ← r.plan q.splits
  -- Every file is read before any block is kept: when one fails, nothing new is on the shelf.
  let fresh : List (List (Option (WeightedAverage α))) ←
    pieces.mapM (r.freshAverages plan q rules)
  let settled ← (pieces.zip fresh).mapM fun (piece, averages) => r.settleBlock opts piece averages
  match ← Job.lift (WeightedAverage.fold (settled.filterMap (·.1))) with
  | none => Job.lift (fail (noData q r.files))
  | some total =>
    let keepsTotal := opts.makeCache && opts.saveTotal
      && (opts.blockSize.isNone || decide (1 < blocks.length))
    let saved ← if keepsTotal then r.keep .average totalKey r.files total else pure []
    return ⟨total, ⟨settled.flatMap (·.2) ++ saved, r.recalledPieces pieces⟩⟩

/-- The average over all files of the run. -/
def average (r : Run) (q : Query) (opts : AverageOptions) : Job (RunAverage α) := do
  if r.files.isEmpty then Job.lift (fail (noData q r.files))
  let rules ← Job.lift (Rule.Predicate.compileAll q.rules)
  let totalKey := r.keyFor .average r.files q
  let found : Option (WeightedAverage α) ←
    if opts.useCache then r.lookUp .average totalKey else pure none
  match found with
  | some average => return ⟨average, ⟨[], r.recalled .average totalKey r.files⟩⟩
  | none => r.averageByBlocks q opts rules totalKey

end Run
end ShotTally
