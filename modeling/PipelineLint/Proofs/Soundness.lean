import PipelineLint.Analysis
import PipelineLint.Proofs.Typing

set_option autoImplicit false

/-! # What an empty report means

The report on a document is empty exactly if the document is clean (`Document.Clean`): its block of
pipeline parameters declares some, its calls supply what the definitions they call declare, and the
references in its scalars name parameters that their places see. Each of the three checks is silent
on one of the three conditions, and none of the conditions mentions a check. -/

namespace PipelineLint

/-! ## The nodes of a tree -/

/-- Whether a node is another one or stands somewhere below it. -/
inductive Node.Contains : Node → Node → Prop where
  | self (node : Node) : Node.Contains node node
  | child {node child other : Node} (hchild : child ∈ node.children)
      (hbelow : Node.Contains child other) : Node.Contains node other

namespace Node

theorem mem_walk_iff {stack : List Node} {node : Node} :
    node ∈ walk stack ↔ ∃ top ∈ stack, top.Contains node := by
  fun_induction walk stack with
  | case1 => simp
  | case2 top rest ih =>
    rw [List.mem_cons, ih]
    constructor
    · rintro (rfl | ⟨next, hnext, hbelow⟩)
      · exact ⟨_, List.mem_cons_self, .self _⟩
      · rcases List.mem_append.1 hnext with hchild | hrest
        · exact ⟨top, List.mem_cons_self, .child hchild hbelow⟩
        · exact ⟨next, List.mem_cons_of_mem _ hrest, hbelow⟩
    · rintro ⟨next, hnext, hbelow⟩
      rcases List.mem_cons.1 hnext with rfl | hrest
      · -- below the top of the stack is what is below its children
        rcases hbelow with _ | ⟨hchild, hbelow⟩
        · exact Or.inl rfl
        · exact Or.inr ⟨_, List.mem_append_left _ hchild, hbelow⟩
      · exact Or.inr ⟨next, List.mem_append_right _ hrest, hbelow⟩

end Node

theorem SyntaxTree.mem_nodesOfKind_iff {tree : SyntaxTree} {kind : NodeKind} {node : Node} :
    node ∈ tree.nodesOfKind kind ↔ tree.root.Contains node ∧ node.kind = kind := by
  simp [nodesOfKind, Node.mem_walk_iff]

/-! ## Clean documents -/

/-- Whether a call supplies what a definition declares. An argument is looked up under the name
    written in the declaration, but declared under the name that the declaration is stored under. -/
structure Invocation.Supplies (call : Invocation) (document : Document) (external : List String)
    (declared : Dict Parameter) : Prop where
  /-- Every enumeration allows some value. -/
  allowed : ∀ key parameter, declared.get? key = some parameter → parameter.type ≠ .enum []
  /-- Every parameter has an argument that is well typed, or none and needs none. -/
  supplied : ∀ key parameter, declared.get? key = some parameter →
    (∃ argument, call.arguments.get? parameter.name = some argument
        ∧ WellTyped document external call.range.start argument parameter)
      ∨ (call.arguments.get? parameter.name = none ∧ parameter.optional = true)
  /-- Every argument is declared. -/
  known : ∀ key argument, call.arguments.get? key = some argument →
    ∃ parameter, declared.get? key = some parameter

/-- Whether nothing is wrong with a document. -/
structure Document.Clean (document : Document) (tree : SyntaxTree) (external : List String) :
    Prop where
  /-- A block of pipeline parameters, if there is one, declares some. -/
  declarations : (∃ name parameter, document.pipelineParameters.get? name = some parameter)
    ∨ document.pipelineRange = ⟨⟨0, 0⟩, ⟨0, 0⟩⟩
  /-- Every call of something that the document defines supplies what is declared there. -/
  calls : ∀ call ∈ document.invocations, ∀ definition,
    document.definition? call.target call.entity = some definition →
      call.Supplies document external definition.parameters
  /-- Every reference in a scalar that can be read names a parameter. -/
  references : ∀ node, tree.root.Contains node →
    (node.kind = .stringScalar ∨ node.kind = .blockScalar) →
      ∀ found, references node.text.toList = .ok found → ∀ reference ∈ found,
        document.Knows node.start reference

/-! ## The three checks -/

namespace Check

theorem declarations_eq_nil_iff {document : Document} :
    declarations document = []
      ↔ (∃ name parameter, document.pipelineParameters.get? name = some parameter)
        ∨ document.pipelineRange = ⟨⟨0, 0⟩, ⟨0, 0⟩⟩ := by
  have hempty : document.pipelineParameters.isEmpty = true
      ↔ ¬ ∃ name parameter, document.pipelineParameters.get? name = some parameter := by
    simp only [Dict.isEmpty_iff, Dict.get?_eq_some_iff, List.eq_nil_iff_forall_not_mem, Prod.forall,
      not_exists]
  have habsent : document.pipelineRange.isAbsent = true
      ↔ document.pipelineRange = ⟨⟨0, 0⟩, ⟨0, 0⟩⟩ := by
    simp [Range.isAbsent, Range.absent]
  unfold declarations
  split
  · next h =>
    rw [Bool.and_eq_true, Bool.not_eq_true', ← Bool.not_eq_true, hempty, habsent] at h
    exact iff_of_false (List.cons_ne_nil _ _) (not_or.2 h)
  · next h =>
    rw [Bool.and_eq_true, Bool.not_eq_true', ← Bool.not_eq_true, hempty, habsent, ← not_or,
      not_not] at h
    exact iff_of_true rfl h

theorem allowedValues_eq_nil_iff {declared : Parameter} :
    allowedValues declared = [] ↔ declared.type ≠ .enum [] := by
  unfold allowedValues Parameter.allowed?
  cases declared.type with
  | enum allowed => cases allowed <;> simp [ParamType.allowed?]
  | _ => simp [ParamType.allowed?]

theorem parameter_eq_nil_iff {document : Document} {external : List String} {p : Position}
    {arguments : Dict Value} {entity : String} {range : Range} {declared : Parameter} :
    parameter (.atPosition document external (.ofDocument document) p) arguments entity range
        declared = []
      ↔ declared.type ≠ .enum []
        ∧ ((∃ argument, arguments.get? declared.name = some argument
            ∧ WellTyped document external p argument declared)
          ∨ (arguments.get? declared.name = none ∧ declared.optional = true)) := by
  rw [parameter, List.append_eq_nil_iff, allowedValues_eq_nil_iff]
  refine and_congr_right fun _ => ?_
  cases hargument : arguments.get? declared.name with
  | some argument => simp [value_eq_nil_iff]
  | none => simp

theorem arguments_eq_nil_iff {document : Document} {external : List String} {call : Invocation}
    {declared : Dict Parameter} :
    arguments (.atPosition document external (.ofDocument document) call.range.start)
        call.arguments call.entity call.range declared = []
      ↔ call.Supplies document external declared := by
  -- the arguments for which nothing is declared, after the parameters
  have hundeclared : (call.arguments.entries.filterMap fun argument =>
        if declared.contains argument.1 then none
        else some (⟨.undeclaredArgument argument.1 call.entity, argument.2.range⟩ : Finding)) = []
      ↔ ∀ key argument, call.arguments.get? key = some argument →
        ∃ parameter, declared.get? key = some parameter := by
    simp only [List.filterMap_eq_nil_iff, ite_eq_left_iff, reduceCtorEq, imp_false, not_not,
      Dict.contains_iff, Dict.get?_eq_some_iff, Prod.forall]
  rw [arguments, List.append_eq_nil_iff, List.flatMap_eq_nil_iff, hundeclared]
  simp only [Dict.mem_values_iff, forall_exists_index, parameter_eq_nil_iff]
  constructor
  · rintro ⟨hparameters, hdeclared⟩
    exact ⟨fun key parameter h => (hparameters parameter key h).1,
      fun key parameter h => (hparameters parameter key h).2, hdeclared⟩
  · rintro ⟨hallowed, hsupplied, hdeclared⟩
    exact ⟨fun parameter key h => ⟨hallowed key parameter h, hsupplied key parameter h⟩, hdeclared⟩

theorem invocations_eq_nil_iff {document : Document} {external : List String} :
    invocations document external = []
      ↔ ∀ call ∈ document.invocations, ∀ definition,
        document.definition? call.target call.entity = some definition →
          call.Supplies document external definition.parameters := by
  simp only [invocations, List.flatMap_eq_nil_iff]
  refine forall₂_congr fun call _ => ?_
  unfold invocation
  cases document.definition? call.target call.entity with
  | some definition => simp [arguments_eq_nil_iff]
  | none => simp

theorem reference_eq_none_iff {document : Document} {node : Node} {reference : Reference} :
    Check.reference (.ofDocument document) ((Scopes.ofDocument document).visibleAt node.start) node
        reference = none
      ↔ document.Knows node.start reference := by
  simp only [← Scopes.exists_resolves_iff, ← Scopes.resolve?_eq_some_iff]
  unfold Check.reference
  split
  · next parameter h => exact iff_of_true rfl ⟨parameter, h⟩
  · next h => simp [h]

theorem scalarNode_eq_nil_iff {document : Document} {node : Node} :
    scalarNode (.ofDocument document) node = []
      ↔ ∀ found, references node.text.toList = .ok found → ∀ reference ∈ found,
        document.Knows node.start reference := by
  unfold scalarNode
  cases references node.text.toList with
  | ok found => simp [List.filterMap_eq_nil_iff, reference_eq_none_iff]
  | error failure => simp

theorem tree_eq_nil_iff {document : Document} {tree : SyntaxTree} :
    Check.tree document tree = []
      ↔ ∀ node, tree.root.Contains node →
        (node.kind = .stringScalar ∨ node.kind = .blockScalar) →
          ∀ found, references node.text.toList = .ok found → ∀ reference ∈ found,
            document.Knows node.start reference := by
  simp only [Check.tree, List.flatMap_eq_nil_iff, List.mem_append, SyntaxTree.mem_nodesOfKind_iff,
    scalarNode_eq_nil_iff, ← and_or_left, and_imp]

end Check

/-- **An empty report.** The report on a document is empty exactly if the document is clean. -/
theorem analyze_isEmpty_iff (document : Document) (tree : SyntaxTree) (external : List String) :
    (analyze document tree external).isEmpty = true ↔ document.Clean tree external := by
  have hfindings : (analyze document tree external).isEmpty = true
      ↔ findings document tree external = [] := by
    simp [analyze, Report.ofFindings, Report.isEmpty]
  rw [hfindings, findings, List.append_eq_nil_iff, List.append_eq_nil_iff,
    Check.declarations_eq_nil_iff, Check.invocations_eq_nil_iff, Check.tree_eq_nil_iff]
  constructor
  · rintro ⟨⟨hdeclarations, hcalls⟩, hreferences⟩
    exact ⟨hdeclarations, hcalls, hreferences⟩
  · rintro ⟨hdeclarations, hcalls, hreferences⟩
    exact ⟨⟨hdeclarations, hcalls⟩, hreferences⟩

end PipelineLint
