/-
Options on a command line: `--name value`, `--name=value`, and flags without a value. Which options
there are, whether they take a value and whether they can be repeated is given by a table.
-/
import ShotTally.Text.Split

namespace ShotTally.CommandLine

open Text

inductive Arity where
  /-- No value; given at most once. -/
  | flag
  /-- A value; given at most once. -/
  | single
  /-- A value each time. -/
  | many
  deriving DecidableEq, Repr

/-- What a command knows, by the names of the options. -/
abbrev OptionTable := List (String × Arity)

/-- The options as given, in order; a flag has no value. -/
structure Options where
  given : List (String × Option String)
  deriving DecidableEq, Repr

namespace Options

/-- The values of an option. -/
def values (o : Options) (name : String) : List String :=
  o.given.filterMap fun (n, v) => if n = name then v else none

/-- The value of an option given at most once. -/
def value? (o : Options) (name : String) : Option String := (o.values name).head?

def isSet (o : Options) (name : String) : Bool := o.given.any fun e => e.1 == name

/-- Whether an argument is meant as an option and not as a value. -/
def looksLikeOption (argument : String) : Bool :=
  argument.toList.head? == some '-' && argument != "-"

/-- The name of an option behind its two dashes, and the value behind an equals sign. -/
def parts? (argument : String) : Option (String × Option String) :=
  match argument.toList with
  | '-' :: '-' :: name =>
    match cutAt '=' name with
    | some (name, value) => some (String.ofList name, some (String.ofList value))
    | none => some (String.ofList name, none)
  | _ => none

/-- Reads arguments that are all options. Two dashes may end them. -/
def read? (table : OptionTable) : List String → Option (List (String × Option String))
  | [] => some []
  | ["--"] => some []
  | argument :: rest =>
    match parts? argument with
    | none => none
    | some (name, value) =>
      match table.lookup name, value with
      | none, _ => none
      | some .flag, none => (read? table rest).map ((name, none) :: ·)
      | some .flag, some _ => none
      | some _, some v => (read? table rest).map ((name, some v) :: ·)
      | some _, none =>
        match rest with
        | v :: rest =>
          if looksLikeOption v then none else (read? table rest).map ((name, some v) :: ·)
        | [] => none

/-- Whether no option is given more often than it may be. -/
def respects (table : OptionTable) (given : List (String × Option String)) : Bool :=
  table.all fun (name, arity) =>
    arity = .many || decide ((given.filter fun e => e.1 == name).length ≤ 1)

/-- The options that arguments give. -/
def parse? (table : OptionTable) (arguments : List String) : Option Options := do
  let given ← read? table arguments
  if respects table given then some ⟨given⟩ else none

end Options
end ShotTally.CommandLine
