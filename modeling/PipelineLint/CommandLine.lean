set_option autoImplicit false

/-! # The command line

The arguments of a run. They are read from left to right, one at a time, and the first one that is
wrong or asks for something other than a run decides. An option may be given once. Its value
follows it as the next argument or, after an equals sign or a single letter, in the same one; the
next argument is no value if it looks like an option. After `--` there are no more options. -/

namespace PipelineLint

/-- The forms in which diagnostics are shown. -/
inductive Format where
  /-- Lines for people. -/
  | human
  | json
deriving DecidableEq, Inhabited

/-- What a run is asked to do. -/
structure Options where
  /-- The path of the snapshot to check. -/
  snapshot : String
  /-- The path of the configuration, if it is given. -/
  config : Option String := none
  format : Format := .human
  /-- Whether to hide warnings. -/
  quiet : Bool := false
  /-- Whether to say that no errors were found. -/
  confirm : Bool := false
deriving DecidableEq, Inhabited

namespace CommandLine

/-- What is wrong with the arguments. -/
inductive UsageError where
  | unknownOption (argument : String)
  | unwantedValue (option : String)
  | missingValue (option : String)
  | unknownFormat (value : String)
  | repeated (option : String)
  | extraArgument (argument : String)
  | missingSnapshot
deriving DecidableEq, Inhabited

/-- The error in words. -/
def UsageError.message : UsageError → String
  | unknownOption argument => "unexpected argument '" ++ argument ++ "' found"
  | unwantedValue option => "option '" ++ option ++ "' takes no value"
  | missingValue option => "a value is required for '" ++ option ++ "'"
  | unknownFormat value => "invalid value '" ++ value ++ "' for '--format'"
  | repeated option => "option '" ++ option ++ "' cannot be used multiple times"
  | extraArgument argument => "unexpected argument '" ++ argument ++ "' found"
  | missingSnapshot => "the path of a snapshot is required"

/-- Why no run takes place. -/
inductive Stop where
  | usage (error : UsageError)
  | version
  | help
deriving DecidableEq, Inhabited

/-! ## Options -/

/-- The options without a value. -/
inductive Flag where
  | quiet
  | check
  | version
  | help
deriving DecidableEq, Inhabited

/-- The options with a value. -/
inductive Setting where
  | config
  | format
deriving DecidableEq, Inhabited

/-- The option with a long name. -/
def longOption? : String → Option (Flag ⊕ Setting)
  | "quiet" => some (.inl .quiet)
  | "check" => some (.inl .check)
  | "version" => some (.inl .version)
  | "help" => some (.inl .help)
  | "config" => some (.inr .config)
  | "format" => some (.inr .format)
  | _ => none

/-- The option with a letter for its name. -/
def shortOption? : Char → Option (Flag ⊕ Setting)
  | 'q' => some (.inl .quiet)
  | 'V' => some (.inl .version)
  | 'h' => some (.inl .help)
  | 'c' => some (.inr .config)
  | _ => none

/-- The long name of an option with a value. -/
def Setting.name : Setting → String
  | config => "--config"
  | format => "--format"

/-! ## Reading arguments -/

/-- What has been read. -/
structure Draft where
  snapshot : Option String := none
  config : Option String := none
  format : Option Format := none
  quiet : Bool := false
  check : Bool := false
  /-- The option whose value is the next argument. -/
  awaiting : Option Setting := none
  /-- Whether all further arguments are no options. -/
  onlyOperands : Bool := false
deriving Inhabited

namespace Draft

/-- Set an option without a value. -/
def addFlag (draft : Draft) : Flag → Except Stop Draft
  | .quiet =>
    if draft.quiet then .error (.usage (.repeated "--quiet"))
    else .ok { draft with quiet := true }
  | .check =>
    if draft.check then .error (.usage (.repeated "--check"))
    else .ok { draft with check := true }
  | .version => .error .version
  | .help => .error .help

/-- Set an option with a value. -/
def addSetting (draft : Draft) (setting : Setting) (value : String) : Except Stop Draft :=
  let draft := { draft with awaiting := none }
  if value.isEmpty then .error (.usage (.missingValue setting.name))
  else match setting with
    | .config =>
      if draft.config.isSome then .error (.usage (.repeated setting.name))
      else .ok { draft with config := some value }
    | .format =>
      if draft.format.isSome then .error (.usage (.repeated setting.name))
      else match value with
        | "human" => .ok { draft with format := some .human }
        | "json" => .ok { draft with format := some .json }
        | _ => .error (.usage (.unknownFormat value))

/-- Take an argument that is no option. -/
def addOperand (draft : Draft) (operand : String) : Except Stop Draft :=
  if draft.snapshot.isSome then .error (.usage (.extraArgument operand))
  else if operand.isEmpty then .error (.usage .missingSnapshot)
  else .ok { draft with snapshot := some operand }

/-- Take an option with a long name, given without the dashes. -/
def addLong (draft : Draft) (option : List Char) : Except Stop Draft :=
  let (name, value) := option.span (· != '=')
  match longOption? (String.ofList name), value with
  | none, _ => .error (.usage (.unknownOption (String.ofList option)))
  | some (.inl flag), [] => draft.addFlag flag
  | some (.inl _), _ :: _ => .error (.usage (.unwantedValue (String.ofList name)))
  | some (.inr setting), [] => .ok { draft with awaiting := some setting }
  | some (.inr setting), _ :: value => draft.addSetting setting (String.ofList value)

/-- Take options with a letter for their names, given without the dash. The letters after an option
    with a value are its value. -/
def addShort (draft : Draft) : List Char → Except Stop Draft
  | [] => .ok draft
  | letter :: rest =>
    match shortOption? letter, rest with
    | none, _ => .error (.usage (.unknownOption (String.ofList [letter])))
    | some (.inl flag), _ => do (← draft.addFlag flag).addShort rest
    | some (.inr setting), [] => .ok { draft with awaiting := some setting }
    | some (.inr setting), '=' :: value => draft.addSetting setting (String.ofList value)
    | some (.inr setting), value => draft.addSetting setting (String.ofList value)

/-- Take an argument that is no value of an option. -/
def addArgument (draft : Draft) (argument : String) : Except Stop Draft :=
  match argument.toList with
  | ['-', '-'] => .ok { draft with onlyOperands := true }
  | '-' :: '-' :: option => draft.addLong option
  | '-' :: letter :: letters => draft.addShort (letter :: letters)
  | _ => draft.addOperand argument

/-- Whether an argument looks like an option. -/
def looksLikeOption (argument : String) : Bool :=
  match argument.toList with
  | '-' :: _ :: _ => true
  | _ => false

/-- Take one argument. -/
def step (draft : Draft) (argument : String) : Except Stop Draft :=
  if draft.onlyOperands then draft.addOperand argument
  else match draft.awaiting with
    | none => draft.addArgument argument
    | some setting =>
      if looksLikeOption argument then .error (.usage (.missingValue setting.name))
      else draft.addSetting setting argument

/-- The options of the run, after the last argument. -/
def finish (draft : Draft) : Except Stop Options :=
  match draft.awaiting, draft.snapshot with
  | some setting, _ => .error (.usage (.missingValue setting.name))
  | none, none => .error (.usage .missingSnapshot)
  | none, some snapshot =>
    .ok {
      snapshot := snapshot
      config := draft.config
      format := draft.format.getD .human
      quiet := draft.quiet
      confirm := draft.check }

end Draft

/-- Read the arguments of a run. -/
def parse (arguments : List String) : Except Stop Options := do
  (← arguments.foldlM Draft.step {}).finish

end CommandLine

end PipelineLint
