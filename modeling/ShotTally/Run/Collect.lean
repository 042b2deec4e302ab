/-
The rows of every bucket over the files of a run, and moments over them.
-/
import ShotTally.Run.Basic

namespace ShotTally

structure RunCollection (α : Type) where
  buckets : CollectedBuckets α
  cache : CacheInfo
  deriving DecidableEq

/-- Moments of a quantity with itself or with a second one, of filtered samples. -/
structure MomentQuery where
  second : Option String
  filter1 : SampleFilter
  filter2 : SampleFilter
  deriving DecidableEq

namespace Run

variable {α : Type} [Scalar α]

/-- Bucket by bucket, the rows of the files in order. -/
def joinBuckets (files : List (FileBuckets α)) : Outcome (List (Tensor α)) :=
  match files with
  | [] => .ok []
  | first :: _ => (List.range first.rows.length).mapM fun bucket =>
    Tensor.concatRows (files.filterMap fun f => f.rows[bucket]?)

/-- The rows of every bucket. -/
def collect [Binary α] (r : Run) (q : Query) (opts : AverageOptions) : Job (RunCollection α) := do
  let rules ← Job.lift (Rule.Predicate.compileAll q.rules)
  let key := r.keyFor .collect r.files q
  let found : Option (CollectedBuckets α) ←
    if opts.useCache then r.lookUp .collect key else pure none
  match found with
  | some buckets => return ⟨buckets, ⟨[], r.recalled .collect key r.files⟩⟩
  | none =>
    let plan ← r.plan q.splits
    let compiled ← r.files.mapM (r.compileFile plan q rules)
    match compiled.filterMap id with
    | [] => Job.lift (fail (noData q r.files))
    | present =>
      let buckets : CollectedBuckets α := ⟨q.bucketShape, ← Job.lift (joinBuckets present)⟩
      let saved ← if opts.makeCache && opts.saveTotal
        then r.keep .collect key r.files buckets else pure []
      return ⟨buckets, ⟨saved, []⟩⟩

/-- The moments of one file, if it has the quantities. -/
def fileMoments (r : Run) (plan : ReadingPlan) (q : Query) (rules : List Rule.Predicate)
    (m : MomentQuery) (name : String) : Job (Option (List (MomentSums α))) := do
  match ← r.compileFile plan q rules name with
  | none => return none
  | some (first : FileBuckets α) =>
    match m.second with
    | none => return some (← Job.lift (first.momentSums none m.filter1 m.filter2))
    | some quantity =>
      match ← r.compileFile plan { q with quantity := quantity } rules name with
      | none => return none
      | some second => return some (← Job.lift (first.momentSums (some second) m.filter1 m.filter2))

/-- Merges the moments of two files bucket by bucket. -/
def mergeMoments (a b : List (MomentSums α)) : Outcome (List (MomentSums α)) :=
  (a.zip b).mapM fun (x, y) => x.merge y

/-- The moments of every bucket over all files that have the quantities. -/
def momentSums (r : Run) (q : Query) (m : MomentQuery) : Job (List (MomentSums α)) := do
  let rules ← Job.lift (Rule.Predicate.compileAll q.rules)
  let plan ← r.plan q.splits
  let perFile ← r.files.mapM (r.fileMoments plan q rules m)
  match perFile.filterMap id with
  | [] => Job.lift (fail (noData q r.files))
  | first :: others => Job.lift (others.foldlM mergeMoments first)

end Run
end ShotTally
