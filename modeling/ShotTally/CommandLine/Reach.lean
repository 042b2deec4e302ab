/-
The places on the disk that a command can touch, so that no more than these have to be known
before it is executed.
-/
import ShotTally.CommandLine.Execution

namespace ShotTally.CommandLine

/-- The paths that a command names. -/
def Command.paths : Command → List String
  | .generate c => c.out :: c.config.toList
  | .average c => c.config :: c.out.toList
  | .rule c => c.file.toList
  | .inspect c => [c.file]

/-- The folders of the settings that an average reads: the data, and what is kept of them. -/
def AverageCommand.folders (c : AverageCommand) (d : Disk) : List String :=
  match ((d.read? c.config).bind Text.ofBytes?).bind RunSetSettings.ofEither? with
  | some settings => settings.runs.flatMap fun r =>
      [r.dataFolder,
        (Shelf.mk (Cache.workFolder r.dataFolder)).operationFolder Cache.Operation.average.name]
  | none => []

/-- The folders whose files a command can read, given what lies at the paths it names. -/
def Command.folders (d : Disk) : Command → List String
  | .average c => c.folders d
  | _ => []

end ShotTally.CommandLine
