import PipelineLint.Run

set_option autoImplicit false

/-! # The program

The command line on the real file system. -/

open PipelineLint

/-- The number of a system error, which is reported with or without a minus sign. -/
def errorNumber (code : UInt32) : UInt32 :=
  min code (0 - code)

/-- The error of a failed reading in terms of the library. -/
def readErrorOf : IO.Error → ReadError
  | .noFileOrDirectory .. => .notFound
  | .permissionDenied .. => .other "Permission denied (os error 13)"
  | error@(.inappropriateType _ code _) | error@(.invalidArgument _ code _) =>
    match errorNumber code with
    | 20 => .notDirectory
    | 21 => .isDirectory
    | 36 => .nameTooLong
    | _ => .other error.toString
  | error => .other error.toString

/-- The file system of the machine. -/
def machineFiles : FileSystem IO where
  isFile path := do
    try
      let real ← IO.FS.realPath path.text
      return (← real.metadata).type == .file
    catch _ => return false
  read path := do
    try
      match String.fromUTF8? (← IO.FS.readBinFile path.text) with
      | some text => return .ok text
      | none => return .error .notText
    catch error => return .error (readErrorOf error)
  canonical? path := do
    try return some (Path.ofString (← IO.FS.realPath path.text).toString)
    catch _ => return none

/-- Run the program with its arguments. -/
def main (arguments : List String) : IO UInt32 := do
  match ← Run.withArguments machineFiles arguments with
  | .error error =>
    IO.eprintln ("error: " ++ error.message)
    return 2
  | .ok outcome =>
    IO.print outcome.stdout
    outcome.stderr.forM IO.eprintln
    return outcome.status
