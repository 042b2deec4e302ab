/-
How runs are set up: where the data are, keywords, and what is known of the periodic signals.
-/
import ShotTally.Shot.Alias

namespace ShotTally

/-- What is known of the source and the modulator. -/
structure Classifier where
  sourceOffset : Int
  /-- Used in place of the period stored with the data. -/
  sourcePeriod : Option Int
  modulatorPeriod : Int
  /-- Found from the reference signal when absent. -/
  modulatorOffset : Option Int
  modulatorReference : String
  deriving DecidableEq

def Classifier.standard : Classifier := ⟨0, none, 2, none, "slu"⟩

structure RunSettings where
  name : String
  dataFolder : String
  /-- All files of the folder when absent. -/
  files : Option (List String)
  aliases : Aliases
  classifier : Classifier
  shotIndexDataset : String
  sourcePeriodDataset : String
  deriving DecidableEq

namespace RunSettings

def standardShotIndex : String := "bunches"

def standardSourcePeriod : String := "Background_Period"

def new (name dataFolder : String) : RunSettings :=
  ⟨name, dataFolder, none, .none, .standard, standardShotIndex, standardSourcePeriod⟩

end RunSettings

structure RunSetSettings where
  runs : List RunSettings
  /-- Keywords for every run that does not set them itself. -/
  aliases : Aliases
  deriving DecidableEq

/-- How averages are computed and kept. -/
structure AverageOptions where
  useCache : Bool
  makeCache : Bool
  blockSize : Option Nat
  /-- Keep blocks that do not have their full number of files. -/
  saveIncomplete : Bool
  /-- Keep the result over all files. -/
  saveTotal : Bool
  deriving DecidableEq, Repr

def AverageOptions.standard : AverageOptions := ⟨true, true, none, false, true⟩

def AverageOptions.uncached : AverageOptions := { standard with useCache := false, makeCache := false }

end ShotTally
