/-
Made-up runs for trials: shots numbered through the files, periodic source and modulator, and
signals that follow them with some noise.
-/
import ShotTally.Condition.Basic
import ShotTally.Decimal.Reading
import ShotTally.Random.Stream
import ShotTally.Shot.Alias
import ShotTally.Shot.Store

namespace ShotTally

open Text

structure SyntheticRun where
  files : Nat
  shots : Nat
  seed : UInt64
  firstShot : Int
  source : Signal
  modulator : Signal
  imageWidth : Nat
  traceLength : Nat
  deriving DecidableEq

namespace SyntheticRun

def standard : SyntheticRun := ⟨2, 100, 7, 0, ⟨2, 0⟩, ⟨2, 1⟩, 8, 16⟩

def signalPath : String := "detector/signal"
def imagePath : String := "camera/vmi/image"
def tracePath : String := "digitizer/tof/trace"
def modulatorPath : String := "laser/slu/signal"
def intensityPath : String := "photon/i0/monitor"

/-- Keywords for the datasets. -/
def aliases : Aliases := .ofList [("signal", signalPath), ("vmi", imagePath), ("tof", tracePath),
  ("slu", modulatorPath), ("i0m", intensityPath)]

/-- Names number the files with three digits or more. -/
def fileName (index : Nat) : String := "run_" ++ padded 3 index ++ ".shot"

/-- The shots of a file follow those of the file before it. -/
def shotIndices (r : SyntheticRun) (index : Nat) : List Int :=
  (List.range r.shots).map fun (k : Nat) => r.firstShot + (index * r.shots : Nat) + (k : Int)

/-- A decimal constant. -/
def constant (digits : Nat) (places : Nat) : Double :=
  Decimal.nearest digits (natDigits digits).length (-(places : Int))

/-- The readings of one shot. -/
structure Reading where
  intensity : Double
  modulator : Double
  signal : Double
  image : List Double
  trace : List Double

/-- A value with noise of the given width. -/
def noisy (value width : Double) : StateM RandomStream Double := do
  return value + width * (← RandomStream.gaussian)

def reading (r : SyntheticRun) (shot : Int) : StateM RandomStream Reading := do
  let sourceOn := !r.source.isOff shot
  let modulatorOn := !r.modulator.isOff shot
  let intensity ← RandomStream.normal (.ofNat 10) (.ofNat 2)
  let noise := constant 5 2
  let modulator ←
    if modulatorOn then noisy .one noise
    else do pure (noise * (← RandomStream.gaussian).abs)
  let level := Double.one + (if sourceOn then .ofNat 2 else .zero)
    + (if modulatorOn then constant 5 1 else .zero)
  let signal ← noisy level (constant 1 1)
  let image ← (List.range r.imageWidth).mapM fun pixel =>
    let profile := Double.one / (Double.one + .ofNat pixel)
    noisy (level * profile * intensity * constant 1 1) (constant 1 2)
  let trace ← (List.range r.traceLength).mapM fun bin =>
    noisy (if bin = r.traceLength / 2 then level else .zero) (constant 2 2)
  return ⟨intensity, modulator, signal, image, trace⟩

/-- One file; each file draws from a substream of its own. -/
def file (r : SyntheticRun) (index : Nat) : ShotFile :=
  let shots := r.shotIndices index
  let readings := ((shots.mapM r.reading).run (.substream r.seed (UInt64.ofNat index))).1
  let numbers (f : Reading → Double) : Dataset := .numeric (.ofList (readings.map f))
  .ofList [
    ("bunches", .numeric (.ofList (shots.map Double.ofInt))),
    ("Background_Period", .numeric (.scalar (.ofInt r.source.period))),
    (signalPath, numbers (·.signal)),
    (modulatorPath, numbers (·.modulator)),
    (intensityPath, numbers (·.intensity)),
    (imagePath, .numeric ⟨[shots.length, r.imageWidth], readings.flatMap (·.image)⟩),
    (tracePath, .numeric ⟨[shots.length, r.traceLength], readings.flatMap (·.trace)⟩),
    ("scan/delay", .numeric (.scalar (.ofNat index))),
    ("meta/mode", .text ["pump"])]

/-- The names of the files as they are made. -/
def fileNames (r : SyntheticRun) : List String := (List.range r.files).map fileName

/-- All files by name. -/
def generate (r : SyntheticRun) : List (String × ShotFile) :=
  (List.range r.files).map fun index => (fileName index, r.file index)

def store (r : SyntheticRun) : Store := .memory (.ofList r.generate)

/-- Writes the files into a folder, and gives their paths. -/
def writeTo (r : SyntheticRun) (folder : String) : Disk.Writing (List String) :=
  r.generate.mapM fun (name, f) => do
    let path := Path.join folder name
    f.writeTo path
    return path

end SyntheticRun
end ShotTally
