/-
Reports of averages over sets of runs, with a digest of the query and the numbers.
-/
import ShotTally.Run.Set

namespace ShotTally

open Cache

/-- One run, or all of them combined. -/
structure AverageEntry where
  name : String
  dataShape : List Nat
  weights : List Double
  average : List Double
  cacheLoaded : Nat
  cacheSaved : Nat
  deriving DecidableEq

structure AverageReport where
  query : Query
  runs : List AverageEntry
  combined : Option AverageEntry
  deriving DecidableEq

namespace AverageEntry

def make (name : String) (a : WeightedAverage Double) (cache : CacheInfo) : AverageEntry :=
  ⟨name, a.dataShape, a.weights.data, a.average.data, cache.loaded.length, cache.saved.length⟩

/-- What goes into the digest: the name and the numbers. -/
def essence (e : AverageEntry) : List (String × Json) :=
  [("name", .text e.name), ("data_shape", .nats e.dataShape), ("weights", .floats e.weights),
    ("average", .floats e.average)]

def json (e : AverageEntry) : Json :=
  .object (e.essence ++
    [("cache_loaded", .nat e.cacheLoaded), ("cache_saved", .nat e.cacheSaved)])

end AverageEntry

namespace AverageReport

/-- The report of a set, with the combined average when that is asked for. -/
def build (q : Query) (result : RunSetAverage Double) (combine : Bool) : Outcome AverageReport := do
  let runs := (result.runs.zip result.cache).map fun ((name, a), cache) =>
    AverageEntry.make name a cache
  let combined ←
    if combine then pure (some (AverageEntry.make "combined" (← result.combined) ⟨[], []⟩))
    else pure none
  return ⟨q, runs, combined⟩

def queryRecord (q : Query) : Json :=
  .object [("quantity", .text q.quantity), ("rules", rulesRecord q.rules),
    ("splits", splitsRecord q.splits), ("slice", slicesRecord q.slices)]

/-- What the digest is taken of. -/
def hashed (r : AverageReport) : Json :=
  .object [("query", queryRecord r.query),
    ("runs", .list (r.runs.map fun e => .object e.essence)),
    ("combined", .option (fun e => .object e.essence) r.combined)]

/-- The text the digest is taken of. -/
def hashedText (r : AverageReport) : String := r.hashed.canonicalText

def digest (r : AverageReport) : String := Sha256.hexOf r.hashedText

def json (r : AverageReport) : Json :=
  .object [
    ("quantity", .text r.query.quantity),
    ("rules", rulesRecord r.query.rules),
    ("source_split", .bool r.query.splits.source),
    ("modulator_split", .bool r.query.splits.modulator),
    ("slice", .text r.query.slices.text),
    ("bucket_shape", .nats r.query.bucketShape),
    ("runs", .list (r.runs.map AverageEntry.json)),
    ("combined", .option AverageEntry.json r.combined),
    ("report_hash", .text r.digest)]

/-- The report as text. -/
def text (r : AverageReport) : String := r.json.canonicalPretty

end AverageReport
end ShotTally
