/-
Settings of runs and run sets as documents.
-/
import ShotTally.Disk.Basic
import ShotTally.Run.Settings
import ShotTally.Text.Bytes
import ShotTally.Yaml.Decode

namespace ShotTally

open Yaml (Node Manner)

/-- A field that has a standard value. -/
def fieldOr {α : Type} (fields : List (String × Node)) (name : String) (standard : α)
    (f : Node → Option α) : Option α :=
  match fields.lookup name with
  | some n => f n
  | none => some standard

/-- A field that has to be given. -/
def field? {α : Type} (fields : List (String × Node)) (name : String) (f : Node → Option α) :
    Option α :=
  (fields.lookup name).bind f

def Aliases.ofNode? (m : Manner) (n : Node) : Option Aliases := (m.texts? n).map Aliases.mk

namespace Classifier

def fieldNames : List String :=
  ["source_offset", "source_period", "modulator_period", "modulator_offset", "modulator_reference"]

def ofNode? (m : Manner) (n : Node) : Option Classifier := do
  let fields ← m.fields? fieldNames n
  let base := Classifier.standard
  return {
    sourceOffset := ← fieldOr fields "source_offset" base.sourceOffset m.int64?
    sourcePeriod := ← fieldOr fields "source_period" base.sourcePeriod (m.option? m.int64?)
    modulatorPeriod := ← fieldOr fields "modulator_period" base.modulatorPeriod m.int64?
    modulatorOffset := ← fieldOr fields "modulator_offset" base.modulatorOffset (m.option? m.int64?)
    modulatorReference := ← fieldOr fields "modulator_reference" base.modulatorReference m.text? }

end Classifier

namespace RunSettings

def fieldNames : List String :=
  ["name", "data_dir", "files", "aliases", "classifier", "shot_index_dataset",
    "source_period_dataset"]

def ofNode? (m : Manner) (n : Node) : Option RunSettings := do
  let fields ← m.fields? fieldNames n
  return {
    name := ← field? fields "name" m.text?
    dataFolder := ← field? fields "data_dir" m.text?
    files := ← fieldOr fields "files" none (m.option? (m.list? m.text?))
    aliases := ← fieldOr fields "aliases" .none (Aliases.ofNode? m)
    classifier := ← fieldOr fields "classifier" .standard (Classifier.ofNode? m)
    shotIndexDataset := ← fieldOr fields "shot_index_dataset" standardShotIndex m.text?
    sourcePeriodDataset := ← fieldOr fields "source_period_dataset" standardSourcePeriod m.text? }

end RunSettings

namespace RunSetSettings

def fieldNames : List String := ["runs", "aliases"]

def ofNode? (m : Manner) (n : Node) : Option RunSetSettings := do
  let fields ← m.fields? fieldNames n
  return {
    runs := ← field? fields "runs" (m.list? (RunSettings.ofNode? m))
    aliases := ← fieldOr fields "aliases" .none (Aliases.ofNode? m) }

end RunSetSettings

/-! ## Files -/

/-- Reads settings from a file, each scalar taken by the place it stands in. -/
def readSettings {α : Type} (ofNode? : Manner → Node → Option α) (d : Disk) (path : String) :
    Outcome α :=
  match d.read? path with
  | none => fail (Report.new .config "config_read" "cannot read settings" |>.note "path" path)
  | some bytes =>
    match (Text.ofBytes? bytes).bind fun text => (Node.read? text.toList).bind (ofNode? .byPlace) with
    | some settings => .ok settings
    | none => fail (Report.new .config "config_parse" "not settings" |>.note "path" path)

def RunSettings.read (d : Disk) (path : String) : Outcome RunSettings :=
  readSettings RunSettings.ofNode? d path

def RunSetSettings.read (d : Disk) (path : String) : Outcome RunSetSettings :=
  readSettings RunSetSettings.ofNode? d path

/-- The settings of a run set from the text of a document that holds a run set or a single run,
each scalar taken by its form. -/
def RunSetSettings.ofEither? (text : String) : Option RunSetSettings := do
  let n ← Node.read? text.toList
  if !n.isMeaningful then none
  match n.member? "runs" with
  | some _ => ofNode? .byForm n
  | none => return ⟨[← RunSettings.ofNode? .byForm n], .none⟩

end ShotTally
