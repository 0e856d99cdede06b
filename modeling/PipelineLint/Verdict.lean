import PipelineLint.Config
import PipelineLint.Diagnostic

set_option autoImplicit false

/-! # Verdicts

Whether a report makes a run fail, and which of its diagnostics are shown. Warnings count only if
the configuration says so, and may be hidden only if they do not count. -/

namespace PipelineLint.Report

/-- Whether the run fails. -/
def fails (report : Report) (config : Config) : Bool :=
  report.hasErrors || (config.warningsAsErrors && report.hasWarnings)

/-- The diagnostics that are shown. -/
def shown (report : Report) (config : Config) (quiet : Bool) : List Diagnostic :=
  let hideWarnings := quiet && !config.warningsAsErrors
  report.diagnostics.filter fun diagnostic => diagnostic.isError || !hideWarnings

end PipelineLint.Report
