import PipelineLint.Check.Call
import PipelineLint.Check.References

set_option autoImplicit false

/-! # Analysis

The whole check of a document: its declarations, then its calls, then the references in its
scalars. -/

namespace PipelineLint

/-- Check the declarations: a block for the parameters of the pipeline should declare some. -/
def Check.declarations (document : Document) : List Finding :=
  if document.pipelineParameters.isEmpty && !document.pipelineRange.isAbsent then
    [{ cause := .noPipelineParameters, range := document.pipelineRange }]
  else []

/-- All findings about a document, where `external` lists the executors provided from outside. -/
def findings (document : Document) (tree : SyntaxTree) (external : List String) : List Finding :=
  Check.declarations document ++ Check.invocations document external ++ Check.tree document tree

/-- The report on a document, where `external` lists the executors provided from outside. -/
def analyze (document : Document) (tree : SyntaxTree) (external : List String) : Report :=
  Report.ofFindings (findings document tree external)

end PipelineLint
