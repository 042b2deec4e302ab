/-
Datasets of a shot file: an array of numbers, or a list of labels.
-/
import ShotTally.Codec.Binary

namespace ShotTally

inductive Dataset where
  | numeric (array : Tensor Double)
  | text (values : List String)
  deriving DecidableEq

namespace Dataset

def numeric? : Dataset → Option (Tensor Double)
  | .numeric array => some array
  | .text _ => none

def shape : Dataset → List Nat
  | .numeric array => array.shape
  | .text values => [values.length]

def kind : Dataset → String
  | .numeric _ => "numeric"
  | .text _ => "text"

instance : Binary Dataset where
  encode
    | .numeric array => Binary.word 4 0 ++ Binary.encode array
    | .text values => Binary.word 4 1 ++ Binary.encode values
  decode := do
    match ← Binary.readWord 4 with
    | 0 => return .numeric (← Binary.decode)
    | 1 => return .text (← Binary.decode)
    | _ => failure

end Dataset
end ShotTally
