import PipelineLint.Config
import PipelineLint.FileSystem

set_option autoImplicit false

/-! # Finding a configuration

A run without an explicit configuration takes the nearest configuration file: the one in the first
directory, from the checked file's upwards, that has one. Whatever is in that file decides; files
farther up are not looked at. -/

namespace PipelineLint.Config

/-- Why there is no configuration. -/
inductive LoadError where
  /-- There is no configuration file in the directory or above it. -/
  | notFound (directory : Path)
  | unreadable (error : ReadError)
  | problem (problem : Problem)
deriving DecidableEq, Inhabited

/-- The error in words. -/
def LoadError.message : LoadError → String
  | notFound directory =>
    "no " ++ fileName ++ " found (searched from " ++ directory.text ++ ")"
  | unreadable error => "failed to read " ++ fileName ++ ": " ++ error.message
  | problem .invalid => "invalid " ++ fileName
  | problem (.blankExecutor index) =>
    "invalid " ++ fileName ++ ": [executors] external entry " ++ index.repr ++ " is empty"

variable {m : Type → Type} [Monad m]

/-- The first path for which there is a configuration file in the directory there. -/
def firstWithFile? (files : FileSystem m) : List Path → m (Option Path)
  | [] => return none
  | directory :: rest => do
    let candidate := directory.child fileName
    if ← files.isFile candidate then return some candidate
    else firstWithFile? files rest

/-- The nearest configuration file from a directory upwards. -/
def find? (files : FileSystem m) (directory : Path) : m (Option Path) :=
  firstWithFile? files directory.ancestors

/-- Load the configuration at a path. -/
def load (files : FileSystem m) (path : Path) : m (Except LoadError Config) := do
  match ← files.read path with
  | .error error => return .error (.unreadable error)
  | .ok text =>
    match parse text with
    | .error problem => return .error (.problem problem)
    | .ok config => return .ok config

/-- Load the nearest configuration from the directory of a file upwards. -/
def loadNearest (files : FileSystem m) (file : Path) : m (Except LoadError Config) := do
  let directory := file.parent?.getD { first := "." }
  match ← find? files directory with
  | some path => load files path
  | none => return .error (.notFound directory)

/-- The configuration of a run on a file: the explicit one if there is one, else the nearest one,
    else the default. -/
def choose (files : FileSystem m) (explicit : Option Path) (file : Path) :
    m (Except LoadError Config) := do
  match explicit with
  | some path => load files path
  | none =>
    let file := (← files.canonical? file).getD file
    match ← loadNearest files file with
    | .error (.notFound _) => return .ok {}
    | outcome => return outcome

end PipelineLint.Config
