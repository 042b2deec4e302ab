/-
Shot files: named datasets with one value for each shot, and their binary form.
-/
import ShotTally.Shot.Dataset
import ShotTally.Version

namespace ShotTally

open Text

structure ShotFile where
  version : Version
  datasets : Keyed Dataset
  deriving DecidableEq

namespace ShotFile

def empty : ShotFile := ⟨.current, .empty⟩

def ofList (datasets : List (String × Dataset)) : ShotFile := ⟨.current, .ofList datasets⟩

def dataset? (f : ShotFile) (name : String) : Option Dataset := f.datasets.get? name

def numeric? (f : ShotFile) (name : String) : Option (Tensor Double) :=
  (f.dataset? name).bind Dataset.numeric?

/-- The shot numbers, each value rounded to a whole number. -/
def shotIndices (f : ShotFile) (name : String) : Outcome (List Int) :=
  match f.numeric? name with
  | some array => .ok (array.data.map Double.toInt64)
  | none => fail (Report.new .store "missing_shot_index" "shot index dataset not found"
      |>.note "dataset" name)

/-! ## The binary form -/

instance : Binary ShotFile where
  encode f := Binary.encode f.version ++ Binary.encode f.datasets
  decode := do
    let version ← Binary.decode
    let datasets ← Binary.decode
    return ⟨version, datasets⟩

def toBytes (f : ShotFile) : List UInt8 := Binary.encode f

def ofBytes (bytes : List UInt8) : Outcome ShotFile :=
  match (Binary.read? bytes : Option ShotFile) with
  | none => fail (Report.new .serde "shot_deserialize" "not a shot file")
  | some f =>
    if Version.current.reads f.version then .ok f
    else fail (Report.new .serde "shot_schema" "unsupported shot file schema"
      |>.note "major" (natText f.version.major))

end ShotFile
end ShotTally
