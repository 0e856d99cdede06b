import PipelineLint.Proofs.Accounting
import PipelineLint.Proofs.Precision
import PipelineLint.Verdict

set_option autoImplicit false

/-! # Severities, verdicts and what is shown

A report on a document is a list of errors, with one warning before them if the document has a block
for the parameters of the pipeline that declares none (`analyze_cases`). Whatever a report holds,
what is shown of it are all diagnostics or all errors (`Report.shown_eq`), and a run that fails has
something to show. So of a report on a document all is shown but the warning, if it is hidden
(`analyze_shown`). -/

namespace PipelineLint

/-! ## The severity of findings -/

/-- Whether a document has a block for the parameters of the pipeline that declares none. -/
def Document.HasEmptyBlock (document : Document) : Prop :=
  (∀ name, document.pipelineParameters.get? name = none)
    ∧ document.pipelineRange ≠ ⟨⟨0, 0⟩, ⟨0, 0⟩⟩

namespace Check

/-- The block for the parameters of the pipeline is warned about if it declares none. -/
theorem declarations_cases (document : Document) :
    (document.HasEmptyBlock ∧ ∃ warning : Finding, warning.cause.severity = .warning
        ∧ declarations document = [warning])
      ∨ (¬ document.HasEmptyBlock ∧ declarations document = []) := by
  have hempty : document.HasEmptyBlock ↔ declarations document ≠ [] := by
    rw [Ne, declarations_eq_nil_iff, Document.HasEmptyBlock]
    simp [Option.eq_none_iff_forall_ne_some]
  by_cases h : declarations document = []
  · exact Or.inr ⟨fun hblock => hempty.1 hblock h, h⟩
  · refine Or.inl ⟨hempty.2 h, ?_⟩
    unfold declarations at h ⊢
    split
    · exact ⟨_, rfl, rfl⟩
    · next hnot =>
      rw [if_neg hnot] at h
      exact absurd rfl h

theorem Task.severity_of_mem_findings {site : Site} {entity : String} {range : Range} {task : Task}
    {finding : Finding} (h : finding ∈ task.findings site entity range) :
    finding.cause.severity = .error := by
  cases task with
  | noAllowedValues key declared =>
    rw [List.mem_singleton.1 h]
    rfl
  | check key declared argument => exact severity_of_mem_value h
  | missing key declared =>
    rw [List.mem_singleton.1 h]
    rfl
  | undeclared key argument =>
    rw [List.mem_singleton.1 h]
    rfl

theorem severity_of_mem_invocations {document : Document} {external : List String}
    {finding : Finding} (h : finding ∈ invocations document external) :
    finding.cause.severity = .error := by
  obtain ⟨call, -, hcall⟩ := List.mem_flatMap.1 h
  unfold invocation at hcall
  split at hcall
  · rw [arguments_eq_flatMap_tasks] at hcall
    obtain ⟨task, -, htask⟩ := List.mem_flatMap.1 hcall
    exact Task.severity_of_mem_findings htask
  · exact absurd hcall List.not_mem_nil

theorem severity_of_mem_tree {document : Document} {tree : SyntaxTree} {finding : Finding}
    (h : finding ∈ Check.tree document tree) : finding.cause.severity = .error := by
  obtain ⟨node, -, hnode⟩ := List.mem_flatMap.1 h
  unfold scalarNode at hnode
  split at hnode
  · obtain ⟨reference, -, hreference⟩ := List.mem_filterMap.1 hnode
    unfold Check.reference at hreference
    split at hreference
    · exact absurd hreference (by simp)
    · rw [← Option.some.inj hreference]
      rfl
  · exact absurd hnode List.not_mem_nil

end Check

/-- A report on a document holds errors, and before them a warning if the document has an empty
    block for the parameters of the pipeline. -/
theorem analyze_cases (document : Document) (tree : SyntaxTree) (external : List String) :
    ∃ errors : List Diagnostic, (∀ diagnostic ∈ errors, diagnostic.severity = .error)
      ∧ ((document.HasEmptyBlock ∧ ∃ warning : Diagnostic, warning.severity = .warning
          ∧ (analyze document tree external).diagnostics = warning :: errors)
        ∨ (¬ document.HasEmptyBlock
          ∧ (analyze document tree external).diagnostics = errors)) := by
  let rest := Check.invocations document external ++ Check.tree document tree
  have hrest : ∀ diagnostic ∈ rest.map Finding.diagnostic, diagnostic.severity = .error := by
    intro diagnostic hmem
    obtain ⟨finding, hfinding, rfl⟩ := List.mem_map.1 hmem
    rcases List.mem_append.1 hfinding with hcall | htree
    · exact Check.severity_of_mem_invocations hcall
    · exact Check.severity_of_mem_tree htree
  have hreport : (analyze document tree external).diagnostics
      = (Check.declarations document).map Finding.diagnostic ++ rest.map Finding.diagnostic := by
    rw [analyze, Report.ofFindings, findings, List.append_assoc, List.map_append]
  refine ⟨rest.map Finding.diagnostic, hrest, ?_⟩
  rcases Check.declarations_cases document with
    ⟨hblock, warning, hwarning, hdeclarations⟩ | ⟨hblock, hdeclarations⟩
  · refine Or.inl ⟨hblock, warning.diagnostic, hwarning, ?_⟩
    rw [hreport, hdeclarations]
    rfl
  · refine Or.inr ⟨hblock, ?_⟩
    rw [hreport, hdeclarations]
    rfl

/-- A report on a document has one warning at most. It stands at the head, and it is there exactly
    if the document has an empty block for the parameters of the pipeline. -/
theorem warning_analyze (document : Document) (tree : SyntaxTree) (external : List String) :
    let report := analyze document tree external
    report.diagnostics.countP (·.severity = .warning) ≤ 1
      ∧ (∀ diagnostic ∈ report.diagnostics.tail, diagnostic.severity = .error)
      ∧ ((∃ diagnostic ∈ report.diagnostics, diagnostic.severity = .warning)
        ↔ document.HasEmptyBlock) := by
  intro report
  obtain ⟨errors, herrors, hcases⟩ := analyze_cases document tree external
  have hnone : ∀ diagnostic ∈ errors, ¬ diagnostic.severity = .warning := by
    intro diagnostic hmem
    rw [herrors diagnostic hmem]
    decide
  have hcount : errors.countP (·.severity = .warning) = 0 := by
    simpa [List.countP_eq_zero] using hnone
  rcases hcases with ⟨hblock, warning, hwarning, hreport⟩ | ⟨hblock, hreport⟩
  · simp only [report, hreport]
    refine ⟨by simp [hcount, hwarning], herrors, ?_⟩
    exact iff_of_true ⟨warning, List.mem_cons_self, hwarning⟩ hblock
  · simp only [report, hreport]
    refine ⟨by simp [hcount], ?_, iff_of_false ?_ hblock⟩
    · intro diagnostic hmem
      exact herrors diagnostic (List.mem_of_mem_tail hmem)
    · rintro ⟨diagnostic, hmem, hwarning⟩
      exact hnone diagnostic hmem hwarning

/-! ## What is shown of a report -/

namespace Report

theorem shown_eq (report : Report) (config : Config) (quiet : Bool) :
    report.shown config quiet
      = if quiet = true ∧ config.warningsAsErrors = false
        then report.diagnostics.filter (·.isError) else report.diagnostics := by
  unfold shown
  cases quiet <;> cases config.warningsAsErrors <;> simp

theorem shown_sublist (report : Report) (config : Config) (quiet : Bool) :
    (report.shown config quiet).Sublist report.diagnostics :=
  List.filter_sublist

theorem filter_isError_shown (report : Report) (config : Config) (quiet : Bool) :
    (report.shown config quiet).filter (·.isError) = report.diagnostics.filter (·.isError) := by
  rw [shown_eq]
  split
  · rw [List.filter_filter]
    simp
  · rfl

theorem filter_isError_ne_nil {report : Report} (h : report.hasErrors = true) :
    report.diagnostics.filter (·.isError) ≠ [] := by
  simpa [hasErrors] using h

theorem shown_ne_nil_of_fails {report : Report} {config : Config} (quiet : Bool)
    (h : report.fails config = true) : report.shown config quiet ≠ [] := by
  rw [fails, Bool.or_eq_true, Bool.and_eq_true] at h
  rcases h with herrors | ⟨hcount, hwarnings⟩
  · intro hnil
    apply filter_isError_ne_nil herrors
    rw [← filter_isError_shown report config quiet, hnil]
    rfl
  · have hnot : ¬ (quiet = true ∧ config.warningsAsErrors = false) := by simp [hcount]
    rw [shown_eq, if_neg hnot]
    intro hnil
    simp [hasWarnings, hnil] at hwarnings

theorem shown_eq_nil_of_passes {report : Report} {config : Config}
    (h : report.fails config = false) : report.shown config true = [] := by
  rw [fails, Bool.or_eq_false_iff] at h
  obtain ⟨herrors, hwarnings⟩ := h
  have hfilter : report.diagnostics.filter (·.isError) = [] := by
    simpa [hasErrors] using herrors
  cases hcount : config.warningsAsErrors with
  | false => rw [shown_eq, if_pos ⟨rfl, hcount⟩, hfilter]
  | true =>
    -- then there are no warnings either
    rw [hcount, Bool.true_and] at hwarnings
    rw [shown_eq, if_neg (by simp [hcount]), List.eq_nil_iff_forall_not_mem]
    intro diagnostic hmem
    have herror : diagnostic.isError = true := by
      simpa using List.any_eq_false.1 hwarnings diagnostic hmem
    exact absurd herror (by simpa using List.any_eq_false.1 herrors diagnostic hmem)

end Report

theorem Diagnostic.isError_iff {diagnostic : Diagnostic} :
    diagnostic.isError = true ↔ diagnostic.severity = .error := by
  simp [Diagnostic.isError]

/-- Of a report on a document all is shown, or all but the warning at its head. -/
theorem shown_analyze (document : Document) (tree : SyntaxTree) (external : List String)
    (config : Config) (quiet : Bool) :
    let report := analyze document tree external
    report.shown config quiet = report.diagnostics
      ∨ ∃ warning : Diagnostic, warning.severity = .warning
        ∧ report.diagnostics = warning :: report.shown config quiet := by
  intro report
  rw [Report.shown_eq]
  split
  · obtain ⟨errors, herrors, hcases⟩ := analyze_cases document tree external
    have hkeep : errors.filter (·.isError) = errors := by
      rw [List.filter_eq_self]
      intro diagnostic hmem
      exact Diagnostic.isError_iff.2 (herrors diagnostic hmem)
    rcases hcases with ⟨-, warning, hwarning, hreport⟩ | ⟨-, hreport⟩
    · refine Or.inr ⟨warning, hwarning, ?_⟩
      have hdrop : ¬ warning.isError = true := by simp [Diagnostic.isError, hwarning]
      rw [hreport, List.filter_cons_of_neg hdrop, hkeep]
    · exact Or.inl (by rw [hreport, hkeep])
  · exact Or.inl rfl

/-- **Severities, verdict and what is shown agree.** A report on a document has one warning at most;
    it is the first diagnostic, and it is there exactly if the document has an empty block for the
    parameters of the pipeline. Of any report all errors are shown, in their order, and a warning
    is left out only if the run is quiet and warnings do not count. A run that fails shows
    something, and a quiet run that does not fail shows nothing. So of a report on a document all
    is shown, or all but the warning at its head. -/
theorem analyze_shown (document : Document) (tree : SyntaxTree) (report : Report) (config : Config)
    (quiet : Bool) :
    let analysis := analyze document tree config.external
    (analysis.diagnostics.countP (·.severity = .warning) ≤ 1
      ∧ (∀ diagnostic ∈ analysis.diagnostics.tail, diagnostic.severity = .error)
      ∧ ((∃ diagnostic ∈ analysis.diagnostics, diagnostic.severity = .warning)
        ↔ (∀ name, document.pipelineParameters.get? name = none)
          ∧ document.pipelineRange ≠ ⟨⟨0, 0⟩, ⟨0, 0⟩⟩))
    ∧ ((report.shown config quiet).Sublist report.diagnostics
      ∧ (report.shown config quiet).filter (·.severity = .error)
        = report.diagnostics.filter (·.severity = .error)
      ∧ (¬ (quiet = true ∧ config.warningsAsErrors = false) →
        report.shown config quiet = report.diagnostics))
    ∧ (report.fails config = true → report.shown config quiet ≠ [])
    ∧ (report.fails config = false → quiet = true → report.shown config quiet = [])
    ∧ (analysis.shown config quiet = analysis.diagnostics
      ∨ ∃ warning : Diagnostic, warning.severity = .warning
        ∧ analysis.diagnostics = warning :: analysis.shown config quiet) := by
  intro analysis
  refine ⟨?_, ⟨report.shown_sublist config quiet, ?_, ?_⟩, ?_, ?_, ?_⟩
  · exact warning_analyze document tree config.external
  · simpa only [← Diagnostic.isError_iff, Bool.decide_eq_true] using
      report.filter_isError_shown config quiet
  · intro hnot
    rw [Report.shown_eq, if_neg hnot]
  · exact Report.shown_ne_nil_of_fails quiet
  · intro hpasses hquiet
    rw [hquiet]
    exact Report.shown_eq_nil_of_passes hpasses
  · exact shown_analyze document tree config.external config quiet

end PipelineLint
