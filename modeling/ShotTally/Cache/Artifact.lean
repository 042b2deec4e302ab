/-
Kept results: a value with the key it was computed for and where it came from.
-/
import ShotTally.Statistics.Average
import ShotTally.Version

namespace ShotTally

structure Provenance where
  key : String
  files : List String
  createdAt : String
  tools : Keyed String
  deriving DecidableEq

structure Artifact (β : Type) where
  version : Version
  provenance : Provenance
  value : β

/-- The rows of each bucket over all files. -/
structure CollectedBuckets (α : Type) where
  bucketShape : List Nat
  rows : List (Tensor α)
  deriving DecidableEq

variable {α β : Type}

instance : Binary Provenance where
  encode p := Binary.encode p.key ++ Binary.encode p.files ++ Binary.encode p.createdAt
    ++ Binary.encode p.tools
  decode := do
    let key ← Binary.decode
    let files ← Binary.decode
    let createdAt ← Binary.decode
    let tools ← Binary.decode
    return ⟨key, files, createdAt, tools⟩

instance [Binary β] : Binary (Artifact β) where
  encode a := Binary.encode a.version ++ Binary.encode a.provenance ++ Binary.encode a.value
  decode := do
    let version ← Binary.decode
    let provenance ← Binary.decode
    let value ← Binary.decode
    return ⟨version, provenance, value⟩

instance [Binary α] : Binary (WeightedAverage α) where
  encode a := Binary.sizes a.bucketShape ++ Binary.encode a.average ++ Binary.encode a.weights
  decode := do
    let bucketShape ← Binary.readSizes
    let average ← Binary.decode
    let weights ← Binary.decode
    return ⟨bucketShape, average, weights⟩

instance [Binary α] : Binary (CollectedBuckets α) where
  encode c := Binary.sizes c.bucketShape ++ Binary.encode c.rows
  decode := do
    let bucketShape ← Binary.readSizes
    let rows ← Binary.decode
    return ⟨bucketShape, rows⟩

/-- The programs that made an artifact. -/
def Provenance.makers : Keyed String := .ofList [("shot-run", "0.1.0")]

namespace Artifact

/-- An artifact of the current version. -/
def make (key : String) (files : List String) (createdAt : String) (value : β) : Artifact β :=
  ⟨.current, ⟨key, files, createdAt, Provenance.makers⟩, value⟩

end Artifact
end ShotTally
