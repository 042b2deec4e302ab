/-
The commands with their options: making up a run, averaging over runs, trying a rule, and listing
what a file holds.
-/
import ShotTally.CommandLine.Options
import ShotTally.Text.Numeral

namespace ShotTally.CommandLine

open Text

structure GenerateCommand where
  out : String
  files : Nat
  shots : Nat
  seed : Nat
  sourcePeriod : Int
  modulatorPeriod : Int
  modulatorOffset : Int
  /-- Where settings for the made-up run are written. -/
  config : Option String
  deriving DecidableEq, Repr

structure AverageCommand where
  config : String
  quantity : String
  rules : List String
  /-- Whether a rule that selects every shot stands in front of the others. -/
  includeAll : Bool
  sourceSplit : Bool
  modulatorSplit : Bool
  slices : List String
  blockSize : Option Nat
  noCache : Bool
  noMakeCache : Bool
  saveIncomplete : Bool
  combine : Bool
  /-- Where the report is written instead of being printed. -/
  out : Option String
  deriving DecidableEq, Repr

structure RuleCommand where
  expression : String
  /-- The file whose shots are tried. -/
  file : Option String
  aliases : List (String × String)
  shotIndexDataset : String
  deriving DecidableEq, Repr

structure InspectCommand where
  file : String
  deriving DecidableEq, Repr

inductive Command where
  | generate (c : GenerateCommand)
  | average (c : AverageCommand)
  | rule (c : RuleCommand)
  | inspect (c : InspectCommand)
  deriving DecidableEq, Repr

/-! ## Values -/

/-- A path is not empty. -/
def path? (s : String) : Option String := if s = "" then none else some s

/-- A number without a sign other than plus, of sixty-four bits. -/
def nat64? (s : String) : Option Nat :=
  let digits := match s.toList with
    | '+' :: rest => rest
    | cs => cs
  (nat? digits).bind fun n => if n < nat64End then some n else none

/-- A keyword and a path, neither of them empty. -/
def alias? (s : String) : Option (String × String) :=
  match cutAt '=' s.toList with
  | some (keyword, path) =>
    if keyword = [] ∨ path = [] then none else some (String.ofList keyword, String.ofList path)
  | none => none

/-- The value of an option if it is given. -/
def optional? {α : Type} (o : Options) (name : String) (f : String → Option α) :
    Option (Option α) :=
  match o.value? name with
  | some s => (f s).map some
  | none => some none

/-- The value of an option, or its standard value. -/
def valueOr? {α : Type} (o : Options) (name : String) (standard : α) (f : String → Option α) :
    Option α := do
  return (← optional? o name f).getD standard

/-- The value of an option that has to be given. -/
def required? {α : Type} (o : Options) (name : String) (f : String → Option α) : Option α :=
  (o.value? name).bind f

/-! ## Commands -/

namespace GenerateCommand

def table : OptionTable :=
  [("out", .single), ("files", .single), ("shots", .single), ("seed", .single),
    ("source-period", .single), ("modulator-period", .single), ("modulator-offset", .single),
    ("config", .single)]

def ofOptions? (o : Options) : Option GenerateCommand := do
  let int64? (s : String) : Option Int := int64? s.toList
  return {
    out := ← required? o "out" path?
    files := ← valueOr? o "files" 2 nat64?
    shots := ← valueOr? o "shots" 100 nat64?
    seed := ← valueOr? o "seed" 7 nat64?
    sourcePeriod := ← valueOr? o "source-period" 2 int64?
    modulatorPeriod := ← valueOr? o "modulator-period" 2 int64?
    modulatorOffset := ← valueOr? o "modulator-offset" 1 int64?
    config := ← optional? o "config" path? }

end GenerateCommand

namespace AverageCommand

def table : OptionTable :=
  [("config", .single), ("quantity", .single), ("rule", .many), ("include-all", .flag),
    ("source-split", .flag), ("modulator-split", .flag), ("slice", .many),
    ("block-size", .single), ("no-cache", .flag), ("no-make-cache", .flag),
    ("save-incomplete", .flag), ("workers", .single), ("combine", .flag), ("out", .single)]

def ofOptions? (o : Options) : Option AverageCommand := do
  let _ ← optional? o "workers" nat64?
  return {
    config := ← required? o "config" path?
    quantity := ← required? o "quantity" some
    rules := o.values "rule"
    includeAll := o.isSet "include-all"
    sourceSplit := o.isSet "source-split"
    modulatorSplit := o.isSet "modulator-split"
    slices := o.values "slice"
    blockSize := ← optional? o "block-size" nat64?
    noCache := o.isSet "no-cache"
    noMakeCache := o.isSet "no-make-cache"
    saveIncomplete := o.isSet "save-incomplete"
    combine := o.isSet "combine"
    out := ← optional? o "out" path? }

end AverageCommand

namespace RuleCommand

def table : OptionTable :=
  [("expr", .single), ("file", .single), ("alias", .many), ("shot-index-dataset", .single)]

def ofOptions? (o : Options) : Option RuleCommand := do
  return {
    expression := ← required? o "expr" some
    file := ← optional? o "file" path?
    aliases := ← (o.values "alias").mapM alias?
    shotIndexDataset := ← valueOr? o "shot-index-dataset" "bunches" some }

end RuleCommand

namespace InspectCommand

def table : OptionTable := [("file", .single)]

def ofOptions? (o : Options) : Option InspectCommand := do
  return { file := ← required? o "file" path? }

end InspectCommand

/-- The command that arguments give, if they give one. -/
def Command.parse? : List String → Option Command
  | "generate" :: rest => do
    return .generate (← GenerateCommand.ofOptions? (← Options.parse? GenerateCommand.table rest))
  | "average" :: rest => do
    return .average (← AverageCommand.ofOptions? (← Options.parse? AverageCommand.table rest))
  | "rule" :: rest => do
    return .rule (← RuleCommand.ofOptions? (← Options.parse? RuleCommand.table rest))
  | "inspect" :: rest => do
    return .inspect (← InspectCommand.ofOptions? (← Options.parse? InspectCommand.table rest))
  | _ => none

end ShotTally.CommandLine
