import PipelineLint.Proofs.Provision

set_option autoImplicit false

/-! # Where declarations matter

What a definition declares is seen inside the definition and by those who call it, and nowhere else.
Two documents that differ in the parameters of one definition only (`Document.EqExcept`) define
things at the same places, so outside that definition the same definition is innermost in both, and
it is one that they share. References to parameters of the pipeline never look into definitions, so
they resolve alike even inside. -/

namespace PipelineLint

/-! ## Documents that differ in one definition -/

/-- Whether two documents are equal except for the parameters that one definition declares, the
    definition `entity` of the first document. -/
structure Document.EqExcept (document changed : Document) (entity : Entity) : Prop where
  file : changed.file = document.file
  pipelineParameters : changed.pipelineParameters = document.pipelineParameters
  pipelineRange : changed.pipelineRange = document.pipelineRange
  orbs : changed.orbs = document.orbs
  invocations : changed.invocations = document.invocations
  others : ∀ kind key, ¬ (kind = entity.kind ∧ key = entity.key) →
    changed.definition? kind key = document.definition? kind key
  holds : document.Holds entity
  redeclared : ∃ parameters,
    changed.Holds { entity with definition := { entity.definition with parameters } }

namespace Document.EqExcept

variable {document changed : Document} {entity : Entity}

theorem samePlaces (h : document.EqExcept changed entity) : document.SamePlaces changed := by
  intro kind key
  by_cases hentity : kind = entity.kind ∧ key = entity.key
  · obtain ⟨rfl, rfl⟩ := hentity
    obtain ⟨parameters, hredeclared⟩ := h.redeclared
    have hbefore : document.definition? entity.kind entity.key = some entity.definition := h.holds
    have hafter : changed.definition? entity.kind entity.key
        = some { entity.definition with parameters } := hredeclared
    rw [hbefore, hafter]
    rfl
  · rw [h.others kind key hentity]

theorem isSome_definition? (h : document.EqExcept changed entity) (kind : EntityKind)
    (key : String) :
    (changed.definition? kind key).isSome = (document.definition? kind key).isSome := by
  have hranges := congrArg Option.isSome (h.samePlaces kind key)
  rw [Option.isSome_map, Option.isSome_map] at hranges
  exact hranges.symm

theorem imports_eq (h : document.EqExcept changed entity) (name : String) :
    changed.imports name = document.imports name := by
  unfold imports
  rw [h.orbs]

theorem knowsExecutor_eq (h : document.EqExcept changed entity) (external : List String)
    (name : String) : changed.knowsExecutor external name = document.knowsExecutor external name := by
  have hown : changed.executors.contains name = document.executors.contains name :=
    h.isSome_definition? .executor name
  rw [knowsExecutor, knowsExecutor, hown, h.imports_eq]

theorem knowsCommand_eq (h : document.EqExcept changed entity) (name : String) :
    changed.knowsCommand name = document.knowsCommand name := by
  have hown : changed.hasCommand name = document.hasCommand name :=
    h.isSome_definition? .command name
  rw [knowsCommand, knowsCommand, hown, h.imports_eq]

/-- Around a place outside the definition stand the same definitions, with what they declare. -/
theorem get?_visibleAt (h : document.EqExcept changed entity) {p : Position}
    (hout : entity.definition.range.contains p = false) (name : String) :
    ((Scopes.ofDocument changed).visibleAt p).get? name
      = ((Scopes.ofDocument document).visibleAt p).get? name := by
  rcases Scopes.innermost?_cases document p with ⟨-, hnone⟩ | ⟨inner, hinner, -⟩
  · have hnone' : ∀ other, ¬ changed.Encloses p other := by
      rintro ⟨kind, key, definition⟩ hother
      obtain ⟨original, -, horiginal⟩ := h.samePlaces.encloses hother
      exact hnone _ horiginal
    rw [Scopes.visibleAt_of_not_encloses hnone, Scopes.visibleAt_of_not_encloses hnone',
      h.pipelineParameters]
  · -- the innermost definition contains the place, so it is not the one that differs
    have hne : ¬ (inner.kind = entity.kind ∧ inner.key = entity.key) := by
      rintro ⟨hkind, hkey⟩
      obtain rfl := hinner.encloses.holds.eq_of_key_eq h.holds hkind hkey
      have hin := Range.contains_iff.2 ⟨hinner.encloses.start_le, hinner.encloses.lt_stop⟩
      rw [hin] at hout
      exact absurd hout (by decide)
    have hholds : changed.Holds inner :=
      (h.others inner.kind inner.key hne).trans hinner.encloses.holds
    have hinner' : changed.IsInnermost p inner := hinner.of_samePlaces h.samePlaces hholds
    rw [Scopes.get?_visibleAt_of_isInnermost hinner, Scopes.get?_visibleAt_of_isInnermost hinner',
      h.pipelineParameters]

theorem resolve?_eq (h : document.EqExcept changed entity) {p : Position} {reference : Reference}
    (hout : entity.definition.range.contains p = false ∨ reference.qualifier = .pipeline) :
    (Scopes.ofDocument changed).resolve? ((Scopes.ofDocument changed).visibleAt p) reference
      = (Scopes.ofDocument document).resolve? ((Scopes.ofDocument document).visibleAt p)
          reference := by
  unfold Scopes.resolve?
  cases hqualifier : reference.qualifier with
  | pipeline => exact congrArg (Dict.get? · reference.name) h.pipelineParameters
  | localScope =>
    rcases hout with hout | hpipeline
    · exact h.get?_visibleAt hout reference.name
    · exact absurd (hqualifier.symm.trans hpipeline) (by decide)

end Document.EqExcept

/-! ## Complaints about parameters of the pipeline -/

/-- Whether a diagnostic says that a parameter of the pipeline is not defined. -/
def Diagnostic.DeniesPipelineParameter (diagnostic : Diagnostic) : Prop :=
  ∃ name, diagnostic.message = "Pipeline parameter " ++ name ++ " is not defined"

instance : DecidablePred Diagnostic.DeniesPipelineParameter := fun diagnostic =>
  decidable_of_iff (∃ name, diagnostic.message = "Pipeline parameter " ++ name ++ " is not defined"
      ∧ True) <| by
    simp only [and_true, Diagnostic.DeniesPipelineParameter]

namespace Check

theorem reference_eq_of_resolve?_eq {scopes scopes' : Scopes} {visible visible' : Dict Parameter}
    {reference : Reference}
    (h : scopes'.resolve? visible' reference = scopes.resolve? visible reference) (node : Node) :
    Check.reference scopes' visible' node reference
      = Check.reference scopes visible node reference := by
  rw [Check.reference, Check.reference, h]

/-- A finding about a reference to what its place sees does not deny a parameter of the pipeline. -/
theorem filter_reference_localScope {reference : Reference}
    (hqualifier : reference.qualifier = .localScope) (scopes : Scopes) (visible : Dict Parameter)
    (node : Node) :
    (Check.reference scopes visible node reference).filter
      (fun finding => finding.diagnostic.DeniesPipelineParameter) = none := by
  unfold Check.reference
  split
  · rfl
  · have hlocal : ∀ name,
        Cause.unresolved reference.qualifier reference.name ≠ .unresolved .pipeline name := by
      intro name heq
      rw [hqualifier] at heq
      exact absurd (Cause.unresolved.inj heq).1 (by decide)
    simp [Finding.diagnostic, Diagnostic.DeniesPipelineParameter,
      Cause.message_eq_unresolved_pipeline_iff, hlocal]

variable {document changed : Document} {entity : Entity}

theorem scalarNode_of_eqExcept (h : document.EqExcept changed entity) {node : Node}
    (hout : entity.definition.range.contains node.start = false) :
    scalarNode (.ofDocument changed) node = scalarNode (.ofDocument document) node := by
  unfold scalarNode
  split
  · apply List.filterMap_congr
    intro reference _
    exact reference_eq_of_resolve?_eq (h.resolve?_eq (Or.inl hout)) node
  · rfl

theorem denied_of_eqExcept (h : document.EqExcept changed entity) (node : Node) :
    (scalarNode (.ofDocument changed) node).filter
        (fun finding => finding.diagnostic.DeniesPipelineParameter)
      = (scalarNode (.ofDocument document) node).filter
          (fun finding => finding.diagnostic.DeniesPipelineParameter) := by
  unfold scalarNode
  split
  · rw [List.filter_filterMap, List.filter_filterMap]
    apply List.filterMap_congr
    intro reference _
    cases hqualifier : reference.qualifier with
    | pipeline => rw [reference_eq_of_resolve?_eq (h.resolve?_eq (Or.inr hqualifier)) node]
    | localScope =>
      rw [filter_reference_localScope hqualifier, filter_reference_localScope hqualifier]
  · rfl

theorem invocation_of_eqExcept (h : document.EqExcept changed entity) (external : List String)
    {call : Invocation} (htarget : ¬ (call.target = entity.kind ∧ call.entity = entity.key))
    (hout : entity.definition.range.contains call.range.start = false) :
    invocation changed external (.ofDocument changed) call
      = invocation document external (.ofDocument document) call := by
  have hextends : (Site.atPosition changed external (.ofDocument changed) call.range.start).Extends
      (.atPosition document external (.ofDocument document) call.range.start) (fun _ => false)
      (fun _ => false) := by
    refine ⟨fun reference => ?_, fun name _ _ => ?_, fun name _ => ?_⟩
    · exact congrArg (Option.map Parameter.kind) (h.resolve?_eq (Or.inl hout))
    · exact (h.knowsExecutor_eq external name).trans (Bool.or_false _).symm
    · exact (h.knowsCommand_eq name).trans (Bool.or_false _).symm
  rw [invocation_of_extends hextends (h.others _ _ htarget), filter_remains_none]

theorem declarations_of_eqExcept (h : document.EqExcept changed entity) :
    declarations changed = declarations document := by
  unfold declarations
  rw [h.pipelineParameters, h.pipelineRange]

end Check

/-- **Declarations are local.** Let two documents be equal except for the parameters that one
    definition declares. They get the same findings about every scalar that starts outside that
    definition, the same complaints about parameters of the pipeline in every scalar, the same
    findings about every call that starts outside the definition and does not call it, and the same
    findings about their declarations. -/
theorem findings_eq_outside (document changed : Document) (entity : Entity)
    (h : document.EqExcept changed entity) :
    (∀ node : Node, entity.definition.range.contains node.start = false →
      Check.scalarNode (.ofDocument changed) node = Check.scalarNode (.ofDocument document) node)
    ∧ (∀ node : Node,
      (Report.ofFindings (Check.scalarNode (.ofDocument changed) node)).diagnostics.filter
          (fun diagnostic => diagnostic.DeniesPipelineParameter)
        = (Report.ofFindings (Check.scalarNode (.ofDocument document) node)).diagnostics.filter
          (fun diagnostic => diagnostic.DeniesPipelineParameter))
    ∧ (∀ (external : List String) (call : Invocation),
      ¬ (call.target = entity.kind ∧ call.entity = entity.key) →
      entity.definition.range.contains call.range.start = false →
        Check.invocation changed external (.ofDocument changed) call
          = Check.invocation document external (.ofDocument document) call)
    ∧ Check.declarations changed = Check.declarations document := by
  refine ⟨?_, ?_, ?_, Check.declarations_of_eqExcept h⟩
  · intro node hout
    exact Check.scalarNode_of_eqExcept h hout
  · intro node
    simp only [Report.ofFindings, List.filter_map]
    exact congrArg (List.map Finding.diagnostic) (Check.denied_of_eqExcept h node)
  · intro external call htarget hout
    exact Check.invocation_of_eqExcept h external htarget hout

/-- A command loses its only parameter. A reference to it behind the command is unknown before and
    after; the same reference in the command becomes unknown. -/
theorem findings_eq_outside_behind :
    let tag : Parameter := { name := "tag", type := .string }
    let lint : Definition :=
      { name := "lint", range := ⟨⟨3, 0⟩, ⟨5, 0⟩⟩, parameters := .ofList [("tag", tag)] }
    let document : Document := { commands := .ofList [("lint", lint)] }
    let changed : Document :=
      { commands := .ofList [("lint", { lint with parameters := .empty })] }
    let scalarAt (start : Position) : Node :=
      { kind := .stringScalar, start, stop := start, text := "<< parameters.tag >>" }
    document.EqExcept changed ⟨.command, "lint", lint⟩
      ∧ Check.scalarNode (.ofDocument changed) (scalarAt ⟨6, 2⟩)
        = Check.scalarNode (.ofDocument document) (scalarAt ⟨6, 2⟩)
      ∧ Check.scalarNode (.ofDocument changed) (scalarAt ⟨4, 2⟩)
        ≠ Check.scalarNode (.ofDocument document) (scalarAt ⟨4, 2⟩) := by
  intro tag lint document changed scalarAt
  have hothers : ∀ kind key, ¬ (kind = EntityKind.command ∧ key = "lint") →
      changed.definition? kind key = document.definition? kind key := by
    intro kind key hne
    cases kind with
    | command =>
      have hkey : key ≠ "lint" := fun heq => hne ⟨rfl, heq⟩
      show (Dict.ofList [("lint", _)]).get? key = (Dict.ofList [("lint", lint)]).get? key
      rw [Dict.get?_ofList, Dict.get?_ofList]
      simp [Entries.lookup_cons_eq_ite, hkey]
    | job => rfl
    | executor => rfl
  have h : document.EqExcept changed ⟨.command, "lint", lint⟩ :=
    ⟨rfl, rfl, rfl, rfl, rfl, hothers, rfl, .empty, rfl⟩
  refine ⟨h, ?_, by decide +kernel⟩
  exact (findings_eq_outside document changed _ h).1 (scalarAt ⟨6, 2⟩) (by decide)

end PipelineLint
