import PipelineLint.Analysis
import PipelineLint.CommandLine
import PipelineLint.Config.Search
import PipelineLint.Diagnostic.Encoding
import PipelineLint.Json.Printer
import PipelineLint.Snapshot
import PipelineLint.Verdict

set_option autoImplicit false

/-! # Runs

A run of the program: load the snapshot, then the configuration, analyze, and show the report. What
it prints and its exit status are a value, so that only reading files is left to the outside. -/

namespace PipelineLint

/-- What a run leaves behind. -/
structure Outcome where
  /-- The exit status: 0 if all is well, 1 if the run fails, 2 if its arguments are wrong. -/
  status : UInt32
  stdout : String := ""
  /-- The lines of the error output. -/
  stderr : List String := []
deriving DecidableEq, Inhabited

/-- Why there is no snapshot. -/
inductive SnapshotError where
  | unreadable (error : ReadError)
  | invalid
deriving DecidableEq, Inhabited

/-- The error in words. -/
def SnapshotError.message : SnapshotError → String
  | unreadable error => "could not read snapshot: " ++ error.message
  | invalid => "invalid snapshot"

/-- The outcome of a run that ends with an error. -/
def Outcome.failure (message : String) : Outcome :=
  { status := 1, stderr := ["error: " ++ message] }

/-- What a run says of itself when asked for its version. -/
def versionText : String := "pipecheck 0.1.0\n"

/-- How the program is called. -/
def usageText : String :=
  String.intercalate "\n"
    ["Usage: pipecheck [OPTIONS] <SNAPSHOT>",
      "",
      "Options:",
      "  -c, --config <CONFIG>  Configuration file",
      "      --format <FORMAT>  Output format: human or json",
      "  -q, --quiet            Suppress warning output",
      "      --check            Print a confirmation line when no errors are found",
      "  -h, --help             Print help",
      "  -V, --version          Print version",
      ""]

namespace Run

/-- The name under which a snapshot's file appears: the one in the document, or else the name of
    the snapshot. -/
def fileName (snapshot : Snapshot) (path : Path) : String :=
  if snapshot.document.file.isEmpty then path.fileName?.getD "" else snapshot.document.file

/-- What is printed and the exit status, for a snapshot under a configuration. -/
def outcome (options : Options) (snapshot : Snapshot) (config : Config) : Outcome :=
  let report := analyze snapshot.document snapshot.tree config.external
  let failed := report.fails config
  let shown := report.shown config options.quiet
  let status := if failed then 1 else 0
  match options.format with
  | .json =>
    { status
      stdout := (Json.array (shown.map (·.toJson))).render .indented ++ "\n" }
  | .human =>
    let source := snapshot.source.toList
    let file := fileName snapshot (Path.ofString options.snapshot)
    { status
      stdout := if options.confirm && !failed then "No errors found.\n" else ""
      stderr := shown.flatMap (·.lines source file) }

variable {m : Type → Type} [Monad m]

/-- Load the snapshot at a path. -/
def loadSnapshot (files : FileSystem m) (path : Path) : m (Except SnapshotError Snapshot) := do
  match ← files.read path with
  | .error error => return .error (.unreadable error)
  | .ok text =>
    match Snapshot.parse? text with
    | none => return .error .invalid
    | some snapshot => return .ok snapshot

/-- Run with these options. -/
def withOptions (files : FileSystem m) (options : Options) : m Outcome := do
  let path := Path.ofString options.snapshot
  match ← loadSnapshot files path with
  | .error error => return .failure ("'" ++ options.snapshot ++ "': " ++ error.message)
  | .ok snapshot =>
    match ← Config.choose files (options.config.map Path.ofString) path with
    | .error error => return .failure error.message
    | .ok config => return outcome options snapshot config

/-- Run with these arguments; the error is a wrong use of the program. -/
def withArguments (files : FileSystem m) (arguments : List String) :
    m (Except CommandLine.UsageError Outcome) := do
  match CommandLine.parse arguments with
  | .ok options => return .ok (← withOptions files options)
  | .error .version => return .ok { status := 0, stdout := versionText }
  | .error .help => return .ok { status := 0, stdout := usageText }
  | .error (.usage error) => return .error error

end Run

end PipelineLint
