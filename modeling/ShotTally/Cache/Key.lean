/-
Keys of cached results. A key is the digest of a canonical record of the operation, the paths of
the files and the query; what the files hold has no part in it.
-/
import ShotTally.Digest.Sha256
import ShotTally.Disk.Path
import ShotTally.Json.Writing
import ShotTally.Query

namespace ShotTally.Cache

/-- The operations whose results are kept. -/
inductive Operation where
  | average
  | collect
  deriving DecidableEq, Repr

def Operation.name : Operation → String
  | .average => "average_run_data_weights"
  | .collect => "get_rundata"

def splitsRecord (s : Splits) : Json :=
  .object [("source", .bool s.source), ("modulator", .bool s.modulator)]

def sliceRecord (s : AxisSlice) : Json :=
  .object [("start", .option .int s.start), ("stop", .option .int s.stop), ("step", .int s.step)]

def slicesRecord (s : Slices) : Json := .list (s.axes.map sliceRecord)

def rulesRecord (rules : List (Option String)) : Json := .list (rules.map (Json.option .text))

/-- The paths of files in a folder, if they are in one. -/
def filePaths (location : Option String) (files : List String) : List String :=
  match location with
  | some folder => files.map (Path.join folder)
  | none => files

/-- What a key is the digest of. -/
def material (operation : String) (location : Option String) (files : List String) (q : Query) :
    Json :=
  .object [
    ("operation", .text operation),
    ("files", .texts (filePaths location files)),
    ("quantity", .text q.quantity),
    ("splits", splitsRecord q.splits),
    ("slice", slicesRecord q.slices),
    ("rules", rulesRecord q.rules)]

def key (operation : String) (location : Option String) (files : List String) (q : Query) :
    String :=
  Sha256.hexOf (material operation location files q).canonicalText

end ShotTally.Cache
