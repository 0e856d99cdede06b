import PipelineLint.Diagnostic
import PipelineLint.Parameter
import PipelineLint.Reference

set_option autoImplicit false

/-! # Findings

Everything that can be wrong with the parameters of a document. A finding is a cause with the place
it is about; `Finding.diagnostic` puts it into words. -/

namespace PipelineLint

/-- What is wrong. -/
inductive Cause where
  /-- The block for the parameters of the pipeline is there, but declares none. -/
  | noPipelineParameters
  /-- An enumeration allows no value at all. -/
  | noAllowedValues (parameter : String)
  /-- A call leaves out a parameter that it needs. -/
  | missingArgument (parameter entity : String)
  /-- A call supplies something for a parameter that is not declared. -/
  | undeclaredArgument (parameter entity : String)
  /-- A value is not of the type it should have. -/
  | wrongType (parameter : String) (expected : ParamKind) (entity : String)
  /-- A value is not among those that an enumeration allows. -/
  | notAllowed (text parameter : String) (allowed : List String)
  /-- A value should name an executor and does not. -/
  | noExecutorName
  /-- An executor is named that nobody provides. -/
  | unknownExecutor (name : String)
  /-- A step names a command that nobody provides. -/
  | unknownCommand (name : String)
  /-- A reference names a parameter that its place does not see. -/
  | unresolved (qualifier : Qualifier) (name : String)
deriving DecidableEq, Inhabited

namespace Cause

/-- How bad it is. -/
def severity : Cause → Severity
  | noPipelineParameters => .warning
  | _ => .error

/-- The cause in words. -/
def message : Cause → String
  | noPipelineParameters => "Pipeline parameters are declared but empty"
  | noAllowedValues parameter =>
    "Enum parameter " ++ parameter ++ " must declare at least one allowed value"
  | missingArgument parameter entity => "Parameter " ++ parameter ++ " is required for " ++ entity
  | undeclaredArgument parameter entity =>
    "Parameter " ++ parameter ++ " is not defined for " ++ entity
  | wrongType parameter expected entity =>
    "Parameter " ++ parameter ++ " is not of type " ++ expected.name ++ " for " ++ entity
  | notAllowed text parameter _ =>
    "Parameter " ++ text ++ " is not a valid value for " ++ parameter
  | noExecutorName => "Missing executor name"
  | unknownExecutor name => "Executor " ++ name ++ " is not defined"
  | unknownCommand name => "Cannot find a definition for command named " ++ name
  | unresolved .pipeline name => "Pipeline parameter " ++ name ++ " is not defined"
  | unresolved .localScope name => "Parameter " ++ name ++ " is not defined"

/-- What to do about it. -/
def suggestion? : Cause → Option String
  | noPipelineParameters => some "declare at least one parameter or remove the block"
  | notAllowed _ _ allowed => some ("expected one of: " ++ String.intercalate ", " allowed)
  | _ => none

end Cause

/-- Something wrong at a place of a document. -/
structure Finding where
  cause : Cause
  range : Range
deriving DecidableEq, Inhabited

/-- A finding in words. -/
def Finding.diagnostic (finding : Finding) : Diagnostic where
  severity := finding.cause.severity
  message := finding.cause.message
  range := some finding.range
  suggestion := finding.cause.suggestion?

/-- The report of findings, in their order. -/
def Report.ofFindings (findings : List Finding) : Report :=
  ⟨findings.map Finding.diagnostic⟩

/-- Add findings to a report, one after the other. -/
def Report.addFindings (report : Report) (findings : List Finding) : Report :=
  findings.foldl (fun report finding => report.add finding.diagnostic) report

theorem Report.diagnostics_addFindings (report : Report) (findings : List Finding) :
    (report.addFindings findings).diagnostics
      = report.diagnostics ++ findings.map Finding.diagnostic := by
  unfold addFindings
  induction findings generalizing report with
  | nil => simp
  | cons finding rest ih =>
    rw [List.foldl_cons, ih, add, List.append_assoc]
    rfl

end PipelineLint
