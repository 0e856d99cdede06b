import PipelineLint.Check.References
import PipelineLint.Proofs.Messages

set_option autoImplicit false

/-! # Declaring a parameter of the pipeline

The parameters of the pipeline lie under those of every definition. So a name that the pipeline
declares is seen from everywhere, whether or not a definition around the place declares it as well,
and what other names mean does not change. Declaring one more parameter, or another one under the
same name, therefore silences the complaints about references to its name and no others
(`tree_declaring`). -/

namespace PipelineLint

/-- The document with a parameter of the pipeline under a name, in place of the one that stands
    there. -/
def Document.declaring (document : Document) (name : String) (parameter : Parameter) : Document :=
  { document with pipelineParameters := document.pipelineParameters.insert name parameter }

/-- Whether a diagnostic says that a parameter of this name is not defined, in the pipeline or where
    the reference stands. -/
def Diagnostic.DeniesParameter (name : String) (diagnostic : Diagnostic) : Prop :=
  diagnostic.message = "Pipeline parameter " ++ name ++ " is not defined"
    ∨ diagnostic.message = "Parameter " ++ name ++ " is not defined"

instance (name : String) : DecidablePred (Diagnostic.DeniesParameter name) := fun diagnostic =>
  inferInstanceAs (Decidable (diagnostic.message = "Pipeline parameter " ++ name ++ " is not defined"
    ∨ diagnostic.message = "Parameter " ++ name ++ " is not defined"))

/-! ## What is seen after the declaration -/

namespace Scopes

theorem isSome_get?_visibleAt_declaring (document : Document) (name : String)
    (parameter : Parameter) (p : Position) (other : String) :
    (((ofDocument (document.declaring name parameter)).visibleAt p).get? other).isSome
      = (other == name || (((ofDocument document).visibleAt p).get? other).isSome) := by
  -- the same definition is innermost, since the definitions are the same
  have hinner : (ofDocument (document.declaring name parameter)).innermost? p
      = (ofDocument document).innermost? p := rfl
  have hpipeline : (ofDocument (document.declaring name parameter)).pipeline
      = document.pipelineParameters.insert name parameter := rfl
  rw [visibleAt, visibleAt, hinner, hpipeline]
  cases (ofDocument document).innermost? p with
  | none =>
    by_cases h : other = name
    · simp [h]
    · simp [h, Dict.get?_insert, ofDocument]
  | some block =>
    by_cases h : other = name
    · simp [h, Dict.get?_overlay]
    · simp [h, Dict.get?_overlay, Dict.get?_insert, ofDocument]

/-- A reference resolves after the declaration if it has resolved before or is about the name that
    is declared. -/
theorem isSome_resolve?_declaring (document : Document) (name : String) (parameter : Parameter)
    (p : Position) (reference : Reference) :
    ((ofDocument (document.declaring name parameter)).resolve?
        ((ofDocument (document.declaring name parameter)).visibleAt p) reference).isSome
      = (reference.name == name || ((ofDocument document).resolve?
          ((ofDocument document).visibleAt p) reference).isSome) := by
  unfold resolve?
  cases reference.qualifier with
  | pipeline =>
    show ((document.pipelineParameters.insert name parameter).get? reference.name).isSome
      = (_ || (document.pipelineParameters.get? reference.name).isSome)
    by_cases h : reference.name = name
    · simp [h]
    · simp [h, Dict.get?_insert]
  | localScope => exact isSome_get?_visibleAt_declaring document name parameter p reference.name

end Scopes

/-! ## What is left to complain about -/

namespace Check

/-- A complaint about a reference denies the parameter that the reference names, and no other. -/
theorem deniesParameter_unresolved_iff {qualifier : Qualifier} {other name : String}
    {range : Range} :
    (Finding.diagnostic ⟨.unresolved qualifier other, range⟩).DeniesParameter name
      ↔ other = name := by
  have hpipeline : (Cause.unresolved qualifier other).message
      = (Cause.unresolved .pipeline name).message ↔ _ := Cause.message_unresolved_eq_iff
  have hlocal : (Cause.unresolved qualifier other).message
      = (Cause.unresolved .localScope name).message ↔ _ := Cause.message_unresolved_eq_iff
  unfold Diagnostic.DeniesParameter
  cases qualifier with
  | pipeline => exact (or_congr hpipeline hlocal).trans (by simp)
  | localScope => exact (or_congr hpipeline hlocal).trans (by simp)

theorem reference_declaring (document : Document) (name : String) (parameter : Parameter)
    (node : Node) (reference : Reference) :
    Check.reference (.ofDocument (document.declaring name parameter))
        ((Scopes.ofDocument (document.declaring name parameter)).visibleAt node.start) node reference
      = (Check.reference (.ofDocument document)
          ((Scopes.ofDocument document).visibleAt node.start) node reference).filter
          (fun finding => ¬ finding.diagnostic.DeniesParameter name) := by
  have hresolve := Scopes.isSome_resolve?_declaring document name parameter node.start reference
  unfold Check.reference
  cases hbefore : (Scopes.ofDocument document).resolve?
      ((Scopes.ofDocument document).visibleAt node.start) reference with
  | some resolved =>
    rw [hbefore, Option.isSome_some, Bool.or_true, Option.isSome_iff_exists] at hresolve
    obtain ⟨declared, hafter⟩ := hresolve
    rw [hafter]
    rfl
  | none =>
    rw [hbefore, Option.isSome_none, Bool.or_false] at hresolve
    by_cases hname : reference.name = name
    · rw [beq_iff_eq.2 hname, Option.isSome_iff_exists] at hresolve
      obtain ⟨declared, hafter⟩ := hresolve
      simp [hafter, Option.filter_some, deniesParameter_unresolved_iff, hname]
    · rw [beq_eq_false_iff_ne.2 hname, Option.isSome_eq_false_iff, Option.isNone_iff_eq_none]
        at hresolve
      simp [hresolve, Option.filter_some, deniesParameter_unresolved_iff, hname]

theorem scalarNode_declaring (document : Document) (name : String) (parameter : Parameter)
    (node : Node) :
    scalarNode (.ofDocument (document.declaring name parameter)) node
      = (scalarNode (.ofDocument document) node).filter
          (fun finding => ¬ finding.diagnostic.DeniesParameter name) := by
  unfold scalarNode
  split
  · rw [List.filter_filterMap]
    apply List.filterMap_congr
    intro reference _
    exact reference_declaring document name parameter node reference
  · rfl

end Check

/-- **Declaring a parameter of the pipeline.** With a parameter declared for the pipeline under a
    name, new or in place of another one, the check of references complains about what it complained
    about before, in the same order and at the same places, but no longer that a parameter of that
    name is not defined. -/
theorem tree_declaring (document : Document) (tree : SyntaxTree) (name : String)
    (parameter : Parameter) :
    (Report.ofFindings (Check.tree (document.declaring name parameter) tree)).diagnostics
      = (Report.ofFindings (Check.tree document tree)).diagnostics.filter
          (fun diagnostic => ¬ diagnostic.DeniesParameter name) := by
  have hfindings : Check.tree (document.declaring name parameter) tree
      = (Check.tree document tree).filter
          (fun finding => ¬ finding.diagnostic.DeniesParameter name) := by
    simp only [Check.tree, List.filter_flatMap]
    exact List.flatMap_congr fun node _ => Check.scalarNode_declaring document name parameter node
  simp only [Report.ofFindings, hfindings, List.filter_map]
  rfl

end PipelineLint
