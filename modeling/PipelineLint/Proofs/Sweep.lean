import PipelineLint.Proofs.Preorder
import PipelineLint.Proofs.RangeOrder
import PipelineLint.Proofs.Soundness

set_option autoImplicit false

/-! # What the check of references looks at

Of a tree, the check of references looks at the scalars that can be read, and of these at the place,
the text and the sort. How they are nested, what stands between them, and how those written in the
line and those written as blocks alternate does not matter to it; a scalar that cannot be read
matters to no other (`tree_eq_of_legible_eq`).

What it finds are the references that name nothing, one finding for each: first those in scalars
written in the line, then those in blocks, both in the order of the document. -/

namespace PipelineLint

/-! ## Scalars that can be read -/

/-- Whether the substitutions in the text of a node are all closed. -/
def Node.isLegible (node : Node) : Bool :=
  (references node.text.toList).isOk

/-- The places and texts of the scalars of one sort that can be read, in order. -/
def SyntaxTree.legible (tree : SyntaxTree) (kind : NodeKind) : List (Position × String) :=
  ((tree.inOrder kind).filter Node.isLegible).map fun node => (node.start, node.text)

namespace Check

theorem scalarNode_of_not_isLegible {node : Node} (h : ¬ node.isLegible = true) (scopes : Scopes) :
    scalarNode scopes node = [] := by
  unfold Node.isLegible at h
  unfold scalarNode
  split
  · next found hfound =>
    rw [hfound] at h
    exact absurd rfl h
  · rfl

theorem flatMap_scalarNode_of_kind_eq {nodes : List Node} {kind : NodeKind}
    (hkind : ∀ node ∈ nodes, node.kind = kind) (scopes : Scopes) :
    nodes.flatMap (scalarNode scopes)
      = (nodes.filter Node.isLegible).flatMap fun node =>
        scalarNode scopes { kind, start := node.start, stop := node.start, text := node.text } := by
  induction nodes with
  | nil => rfl
  | cons node rest ih =>
    obtain ⟨rfl, hrest⟩ := List.forall_mem_cons.1 hkind
    rw [List.flatMap_cons, ih hrest]
    by_cases hlegible : node.isLegible = true
    · rw [List.filter_cons_of_pos hlegible, List.flatMap_cons]
      rfl
    · rw [List.filter_cons_of_neg hlegible, scalarNode_of_not_isLegible hlegible, List.nil_append]

/-- What is found in the scalars of one sort follows from the places and texts of those that can be
    read. -/
theorem flatMap_scalarNode_inOrder (scopes : Scopes) (tree : SyntaxTree) (kind : NodeKind) :
    (tree.inOrder kind).flatMap (scalarNode scopes)
      = (tree.legible kind).flatMap fun scalar =>
          scalarNode scopes { kind, start := scalar.1, stop := scalar.1, text := scalar.2 } := by
  have hkind : ∀ node ∈ tree.inOrder kind, node.kind = kind := by
    intro node hnode
    simpa using (List.mem_filter.1 hnode).2
  rw [flatMap_scalarNode_of_kind_eq hkind, SyntaxTree.legible, List.flatMap_map]

end Check

/-! ## What is found -/

/-- A reference in the text of a node. -/
structure Mention where
  node : Node
  reference : Reference

instance (document : Document) (p : Position) (reference : Reference) :
    Decidable (document.Knows p reference) :=
  decidable_of_iff (((Scopes.ofDocument document).resolve?
      ((Scopes.ofDocument document).visibleAt p) reference).isSome = true) <| by
    rw [Option.isSome_iff_exists, ← Scopes.exists_resolves_iff]
    simp only [Scopes.resolve?_eq_some_iff]

namespace Mention

/-- Whether the reference names no parameter that its place sees. -/
def Unresolved (document : Document) (mention : Mention) : Prop :=
  ¬ document.Knows mention.node.start mention.reference

instance (document : Document) : DecidablePred (Unresolved document) := fun mention =>
  inferInstanceAs (Decidable (¬ document.Knows mention.node.start mention.reference))

/-- The finding that the reference names nothing. -/
def finding (mention : Mention) : Finding where
  cause := .unresolved mention.reference.qualifier mention.reference.name
  range := mention.node.kind.place mention.node.start mention.reference.range

end Mention

/-- The references in the text of a node; a text that cannot be read has none. -/
def Node.mentions (node : Node) : List Mention :=
  match references node.text.toList with
  | .ok found => found.map (⟨node, ·⟩)
  | .error _ => []

/-- The references in the scalars of one sort: scalar by scalar in the order of the document, and in
    the order of the text. -/
def SyntaxTree.mentions (tree : SyntaxTree) (kind : NodeKind) : List Mention :=
  (tree.inOrder kind).flatMap Node.mentions

theorem Node.pairwise_mentions (node : Node) :
    node.mentions.Pairwise fun mention later =>
      mention.reference.Precedes node.text.toList later.reference := by
  unfold mentions
  split
  · next found hfound => exact List.pairwise_map.2 (pairwise_precedes_references hfound)
  · exact .nil

namespace Check

theorem reference_eq_ite (document : Document) (node : Node) (reference : Reference) :
    Check.reference (.ofDocument document) ((Scopes.ofDocument document).visibleAt node.start) node
        reference
      = if Mention.Unresolved document ⟨node, reference⟩
        then some (Mention.finding ⟨node, reference⟩) else none := by
  by_cases hunresolved : Mention.Unresolved document ⟨node, reference⟩
  · have hsome := mt reference_eq_none_iff.1 hunresolved
    rw [if_pos hunresolved]
    unfold Check.reference at hsome ⊢
    split
    · next parameter hresolved =>
      rw [hresolved] at hsome
      exact absurd rfl hsome
    · rfl
  · rw [if_neg hunresolved, reference_eq_none_iff]
    exact not_not.1 hunresolved

/-- In a scalar the references that name nothing are found, in their order. -/
theorem scalarNode_eq_map_mentions (document : Document) (node : Node) :
    scalarNode (.ofDocument document) node
      = (node.mentions.filter (Mention.Unresolved document)).map Mention.finding := by
  unfold scalarNode Node.mentions
  cases references node.text.toList with
  | error failure => rfl
  | ok found =>
    show found.filterMap _ = ((found.map (Mention.mk node)).filter _).map Mention.finding
    rw [List.filter_map, List.map_map, ← List.filterMap_eq_map, List.filterMap_filter]
    apply List.filterMap_congr
    intro reference _
    rw [reference_eq_ite]
    simp

/-- So the whole check finds the references in scalars that name nothing. -/
theorem tree_eq_map_mentions (document : Document) (tree : SyntaxTree) :
    Check.tree document tree
      = ((tree.mentions .stringScalar ++ tree.mentions .blockScalar).filter
          (Mention.Unresolved document)).map Mention.finding := by
  simp only [Check.tree, SyntaxTree.nodesOfKind_eq_inOrder, SyntaxTree.mentions,
    ← List.flatMap_append, List.filter_flatMap, List.map_flatMap]
  exact List.flatMap_congr fun node _ => scalarNode_eq_map_mentions document node

end Check

/-- **What the check of references depends on.** Let two trees have the same scalars of either sort,
    by place and text and in the order of the document, where scalars that cannot be read are left
    out. Then the check of references reports the same about both. The report has one entry for each
    reference that names nothing: first those in scalars written in the line, then those in blocks,
    each scalar by scalar in the order of the document, and in a scalar in the order of its text. -/
theorem tree_eq_of_legible_eq (document : Document) (tree other : SyntaxTree)
    (hinline : tree.legible .stringScalar = other.legible .stringScalar)
    (hblock : tree.legible .blockScalar = other.legible .blockScalar) :
    let report := Report.ofFindings (Check.tree document tree)
    report = .ofFindings (Check.tree document other)
    ∧ report.diagnostics
        = ((tree.mentions .stringScalar ++ tree.mentions .blockScalar).filter
            (Mention.Unresolved document)).map (fun mention => mention.finding.diagnostic)
    ∧ ∀ node : Node, node.mentions.Pairwise fun mention later =>
        mention.reference.Precedes node.text.toList later.reference := by
  intro report
  refine ⟨?_, ?_, fun node => node.pairwise_mentions⟩
  · have hfindings : Check.tree document tree = Check.tree document other := by
      simp only [Check.tree, SyntaxTree.nodesOfKind_eq_inOrder, List.flatMap_append,
        Check.flatMap_scalarNode_inOrder, hinline, hblock]
    exact congrArg Report.ofFindings hfindings
  · show (Check.tree document tree).map Finding.diagnostic = _
    rw [Check.tree_eq_map_mentions, List.map_map]
    rfl

/-- Two ways to nest the same scalars, one of them with a scalar that cannot be read. -/
theorem tree_eq_of_legible_eq_nested :
    let node (kind : NodeKind) (line : UInt32) (text : String) (children : List Node) : Node :=
      { kind, start := ⟨line, 0⟩, stop := ⟨line, 30⟩, text, children }
    let first := node .stringScalar 1 "<< parameters.a >>"
    let block := node .blockScalar 2 "<< parameters.b >>"
    let broken := node .stringScalar 3 "<< parameters.a >> << parameters"
    let last := node .stringScalar 4 "<< parameters.c >>"
    let tree : SyntaxTree := ⟨node .mapping 1 "" [first [block []], broken [last []]]⟩
    let other : SyntaxTree := ⟨block [node .sequence 1 "" [first [], node .other 4 "" [last []]]]⟩
    let report := Report.ofFindings (Check.tree {} other)
    report = .ofFindings (Check.tree {} tree)
      ∧ report.diagnostics.map (·.message)
        = ["Parameter a is not defined", "Parameter c is not defined",
            "Parameter b is not defined"] := by
  intro node first block broken last tree other report
  obtain ⟨hsame, hlisted, -⟩ :=
    tree_eq_of_legible_eq {} other tree (by decide +kernel) (by decide +kernel)
  refine ⟨hsame, ?_⟩
  rw [hlisted]
  decide +kernel

end PipelineLint
