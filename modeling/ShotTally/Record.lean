/-
Records of settings, failures and results, as they are handed to other programs.
-/
import ShotTally.Bucket.Compile
import ShotTally.Cache.Shelf
import ShotTally.Json.Basic
import ShotTally.Run.Average
import ShotTally.Run.Collect

namespace ShotTally

/-! ## Failures -/

/-- The family by its title, and the details; a hint is left out when there is none. -/
def Report.json (r : Report) : Json :=
  let details : List (String × Json) :=
    [("code", .text r.code), ("message", .text r.message), ("context", .ofKeyed .text r.context)]
  let hint : List (String × Json) := match r.hint with
    | some hint => [("hint", .text hint)]
    | none => []
  .object [("family", .text r.family.title), ("detail", .object (details ++ hint))]

/-! ## Arrays and statistics -/

def Tensor.json (t : Tensor Double) : Json :=
  .object [("shape", .nats t.shape), ("data", .floats t.data)]

def SampleFilter.json : SampleFilter → Json
  | .identity => .object [("kind", .text "identity")]
  | .select indices => .object [("kind", .text "select"), ("indices", .nats indices)]
  | .rangeSums ranges => .object [("kind", .text "range_sums"),
    ("ranges", .list (ranges.map fun (first, past) => .nats [first, past]))]

def MomentSums.json (m : MomentSums Double) : Json :=
  .object [
    ("dims", .nats [m.dims.1, m.dims.2]),
    ("covariance_sum", .list (m.covarianceSum.map .floats)),
    ("sum_1", .floats m.sum1),
    ("sum_2", .floats m.sum2),
    ("count", .float m.count)]

/-- Means and covariance. -/
def MomentSums.finalJson (m : MomentSums Double) : Json :=
  .object [("mean_1", .floats m.mean1), ("mean_2", .floats m.mean2),
    ("covariance", .list (m.covariance.map .floats))]

def BucketSums.members (s : BucketSums Double) : List (String × Json) :=
  [("sums", s.sums.json), ("counts", .floats s.counts)]

def WeightedAverage.members (a : WeightedAverage Double) : List (String × Json) :=
  [("bucket_shape", .nats a.bucketShape), ("data_shape", .nats a.dataShape),
    ("average", a.average.json), ("weights", a.weights.json)]

def WeightedAverage.json (a : WeightedAverage Double) : Json := .object a.members

def StackedAverage.json (s : StackedAverage Double) : Json :=
  .object [("average", s.average.json), ("weights", s.weights.json)]

/-! ## Shot files -/

def Dataset.json (d : Dataset) : Json :=
  let values : String × Json := match d with
    | .numeric t => ("data", .floats t.data)
    | .text vs => ("values", .texts vs)
  .object [("kind", .text d.kind), ("shape", .nats d.shape), values]

def ShotFile.members (f : ShotFile) : List (String × Json) :=
  [("schema", .text f.version.text), ("datasets", .ofKeyed Dataset.json f.datasets)]

def ShotFile.json (f : ShotFile) : Json := .object f.members

/-! ## Settings -/

def Aliases.json (a : Aliases) : Json := .ofKeyed .text a.paths

def ReadingPlan.json (p : ReadingPlan) : Json :=
  .object [
    ("aliases", p.aliases.json),
    ("shot_index_dataset", .text p.shotIndexDataset),
    ("source_period_dataset", .text p.sourcePeriodDataset),
    ("source_period", .option .int p.sourcePeriod),
    ("source_offset", .int p.sourceOffset),
    ("modulator_period", .int p.modulator.period),
    ("modulator_offset", .int p.modulator.offset)]

def Classifier.json (c : Classifier) : Json :=
  .object [
    ("source_offset", .int c.sourceOffset),
    ("source_period", .option .int c.sourcePeriod),
    ("modulator_period", .int c.modulatorPeriod),
    ("modulator_offset", .option .int c.modulatorOffset),
    ("modulator_reference", .text c.modulatorReference)]

def RunSettings.json (s : RunSettings) : Json :=
  .object [
    ("name", .text s.name),
    ("data_dir", .text s.dataFolder),
    ("files", .option .texts s.files),
    ("aliases", s.aliases.json),
    ("classifier", s.classifier.json),
    ("shot_index_dataset", .text s.shotIndexDataset),
    ("source_period_dataset", .text s.sourcePeriodDataset)]

def RunSetSettings.json (s : RunSetSettings) : Json :=
  .object [("runs", .list (s.runs.map RunSettings.json)), ("aliases", s.aliases.json)]

/-! ## The shelf -/

def CacheRecord.json (r : CacheRecord) : Json :=
  .object [("path", .text r.path), ("files", .texts r.files)]

def CacheInfo.json (c : CacheInfo) : Json :=
  .object [("saved", .list (c.saved.map CacheRecord.json)),
    ("loaded", .list (c.loaded.map CacheRecord.json))]

/-! ## Results of runs -/

def RunAverage.json (a : RunAverage Double) : Json :=
  .object (a.average.members ++ [("cache", a.cache.json)])

def RunCollection.json (c : RunCollection Double) : Json :=
  .object [("bucket_shape", .nats c.buckets.bucketShape),
    ("rows", .list (c.buckets.rows.map Tensor.json)), ("cache", c.cache.json)]

end ShotTally
