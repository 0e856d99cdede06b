import PipelineLint.Proofs.Accounting
import PipelineLint.Proofs.Placement
import PipelineLint.Proofs.Precision

set_option autoImplicit false

/-! # Where findings point

A finding points at something that is written in the document: the block of pipeline parameters, a
declaration, a call, one of its arguments or a direct part of one, or a reference in a scalar. The
anchors (`Value.Anchor`, `Invocation.Anchor`, `Document.Anchor`) list these places, and the lemmas
`Check.anchor_of_mem_…` find the one that a finding points at.

A range is printed with its coordinates counted from one, so the largest coordinate cannot be
printed. Only the ranges of references are computed, and they stay within the text of their scalar;
if the text of each scalar ends below the largest coordinate, every report can be printed. -/

namespace PipelineLint

/-! ## Anchors -/

/-- The places at which a value can be reported: its own, that of the name in a map, or that of an
    item of a list. -/
inductive Value.Anchor (value : Value) : Range → Prop where
  | whole : Value.Anchor value value.range
  | name {entries : List (String × Value)} {entry : Value} (hvalue : value.payload = .map entries)
      (hentry : entries.lookup "name" = some entry) : Value.Anchor value entry.range
  | item {items : List Value} {item : Value} (hvalue : value.payload = .sequence items)
      (hitem : item ∈ items) : Value.Anchor value item.range

/-- The places at which a call of a definition can be reported: an enumeration of the definition
    that allows no value, the call, or its arguments. -/
inductive Invocation.Anchor (call : Invocation) (definition : Definition) : Range → Prop where
  | enumeration {key : String} {parameter : Parameter}
      (hparameter : definition.parameters.get? key = some parameter)
      (hallowed : parameter.type = .enum []) : Invocation.Anchor call definition parameter.range
  | whole : Invocation.Anchor call definition call.range
  | argument {key : String} {argument : Value} {range : Range}
      (hargument : call.arguments.get? key = some argument) (hanchor : argument.Anchor range) :
      Invocation.Anchor call definition range

/-- The places at which a document can be reported. -/
inductive Document.Anchor (document : Document) (tree : SyntaxTree) : Range → Prop where
  | declarations : Document.Anchor document tree document.pipelineRange
  | call {call : Invocation} {definition : Definition} {range : Range}
      (hcall : call ∈ document.invocations)
      (hdefinition : document.definition? call.target call.entity = some definition)
      (hanchor : call.Anchor definition range) : Document.Anchor document tree range
  | reference {node : Node} {found : List Reference} {reference : Reference}
      (hnode : tree.root.Contains node)
      (hkind : node.kind = .stringScalar ∨ node.kind = .blockScalar)
      (hfound : references node.text.toList = .ok found) (hreference : reference ∈ found) :
      Document.Anchor document tree (node.kind.place node.start reference.range)

namespace Check

section

variable {site : Site} {value : Value} {declared : Parameter} {entity : String} {finding : Finding}

theorem anchor_of_mem_value (h : finding ∈ Check.value site value declared entity) :
    value.Anchor finding.range := by
  rcases reported_of_mem_value h with hreported | ⟨items, item, cause, hvalue, hitem, -, rfl⟩
  · cases hreported with
    | whole _ => exact .whole
    | name _ hunknown =>
      obtain ⟨hvalue, hlookup, -⟩ := hunknown
      exact .name hvalue hlookup
  · exact .item hvalue hitem

theorem anchor_of_mem_arguments {call : Invocation} {definition : Definition}
    (h : finding ∈ arguments site call.arguments call.entity call.range definition.parameters) :
    call.Anchor definition finding.range := by
  rw [arguments_eq_flatMap_tasks] at h
  obtain ⟨task, htask, hfinding⟩ := List.mem_flatMap.1 h
  cases mem_tasks_iff.1 htask with
  | noAllowedValues hkey htype =>
    rw [List.mem_singleton.1 hfinding]
    exact .enumeration hkey htype
  | check _ hargument => exact .argument hargument (anchor_of_mem_value hfinding)
  | missing _ _ _ =>
    rw [List.mem_singleton.1 hfinding]
    exact .whole
  | undeclared hargument _ =>
    rw [List.mem_singleton.1 hfinding]
    exact .argument hargument .whole

end

theorem anchor_of_mem_scalarNode {document : Document} {tree : SyntaxTree} {scopes : Scopes}
    {node : Node} {finding : Finding} (hnode : tree.root.Contains node)
    (hkind : node.kind = .stringScalar ∨ node.kind = .blockScalar)
    (h : finding ∈ scalarNode scopes node) : document.Anchor tree finding.range := by
  unfold scalarNode at h
  split at h
  · next found hfound =>
    obtain ⟨reference, hreference, hsome⟩ := List.mem_filterMap.1 h
    unfold Check.reference at hsome
    split at hsome
    · exact absurd hsome (by simp)
    · rw [← Option.some.inj hsome]
      exact .reference hnode hkind hfound hreference
  · exact absurd h List.not_mem_nil

end Check

theorem anchor_of_mem_findings {document : Document} {tree : SyntaxTree} {external : List String}
    {finding : Finding} (h : finding ∈ findings document tree external) :
    document.Anchor tree finding.range := by
  rcases List.mem_append.1 h with h | hscalar
  · rcases List.mem_append.1 h with hdeclarations | hcall
    · unfold Check.declarations at hdeclarations
      split at hdeclarations
      · rw [List.mem_singleton.1 hdeclarations]
        exact .declarations
      · exact absurd hdeclarations List.not_mem_nil
    · obtain ⟨call, hmem, hfinding⟩ := List.mem_flatMap.1 hcall
      unfold Check.invocation at hfinding
      split at hfinding
      · next definition hdefinition =>
        exact .call hmem hdefinition (Check.anchor_of_mem_arguments hfinding)
      · exact absurd hfinding List.not_mem_nil
  · obtain ⟨node, hnode, hfinding⟩ := List.mem_flatMap.1 hscalar
    rcases List.mem_append.1 hnode with hnode | hnode
    · obtain ⟨hcontains, hkind⟩ := SyntaxTree.mem_nodesOfKind_iff.1 hnode
      exact Check.anchor_of_mem_scalarNode hcontains (Or.inl hkind) hfinding
    · obtain ⟨hcontains, hkind⟩ := SyntaxTree.mem_nodesOfKind_iff.1 hnode
      exact Check.anchor_of_mem_scalarNode hcontains (Or.inr hkind) hfinding

/-! ## What can be printed -/

/-- Whether both coordinates are below the largest one. -/
def Position.Printable (p : Position) : Prop :=
  p.line.toNat < UInt32.size - 1 ∧ p.character.toNat < UInt32.size - 1

/-- Whether both ends have coordinates below the largest one. -/
def Range.Printable (range : Range) : Prop :=
  range.start.Printable ∧ range.stop.Printable

instance (p : Position) : Decidable p.Printable :=
  inferInstanceAs (Decidable (_ ∧ _))

instance (range : Range) : Decidable range.Printable :=
  inferInstanceAs (Decidable (_ ∧ _))

theorem isSome_ordinal?_iff {coordinate : UInt32} :
    (ordinal? coordinate).isSome = true ↔ coordinate.toNat < UInt32.size - 1 := by
  unfold ordinal?
  split
  · next h => exact iff_of_true rfl (by omega)
  · next h => exact iff_of_false (by simp) (by omega)

theorem Position.isSome_display?_iff {p : Position} :
    p.display?.isSome = true ↔ p.Printable := by
  rw [Printable, ← isSome_ordinal?_iff, ← isSome_ordinal?_iff, display?]
  cases ordinal? p.line <;> cases ordinal? p.character <;> simp

theorem Range.isSome_display?_iff {range : Range} :
    range.display?.isSome = true ↔ range.Printable := by
  rw [Printable, ← Position.isSome_display?_iff, ← Position.isSome_display?_iff, display?]
  cases range.start.display? <;> cases range.stop.display? <;> simp

theorem Finding.isSome_display?_iff {finding : Finding} :
    finding.diagnostic.display?.isSome = true ↔ finding.range.Printable := by
  rw [← Range.isSome_display?_iff]
  unfold Diagnostic.display? Finding.diagnostic
  cases hrange : finding.range.display? <;> simp [hrange]

/-- Whether a value is another one or stands somewhere inside it. -/
inductive Value.Contains : Value → Value → Prop where
  | self (value : Value) : Value.Contains value value
  | entry {value part other : Value} {entries : List (String × Value)} {key : String}
      (hvalue : value.payload = .map entries) (hentry : (key, part) ∈ entries)
      (hbelow : Value.Contains part other) : Value.Contains value other
  | item {value part other : Value} {items : List Value} (hvalue : value.payload = .sequence items)
      (hitem : part ∈ items) (hbelow : Value.Contains part other) : Value.Contains value other

/-- Whether every coordinate of a document is below the largest one. -/
structure Document.Printable (document : Document) : Prop where
  pipelineRange : document.pipelineRange.Printable
  pipelineParameters : ∀ key parameter,
    document.pipelineParameters.get? key = some parameter → parameter.range.Printable
  definitions : ∀ kind key definition, document.definition? kind key = some definition →
    definition.range.Printable
  parameters : ∀ kind key definition, document.definition? kind key = some definition →
    ∀ name parameter, definition.parameters.get? name = some parameter →
      parameter.range.Printable
  calls : ∀ call ∈ document.invocations, call.range.Printable
  arguments : ∀ call ∈ document.invocations, ∀ key argument,
    call.arguments.get? key = some argument → ∀ part, argument.Contains part →
      part.range.Printable

/-- Whether every coordinate of a tree is below the largest one, and no scalar has so many lines or
    characters that counting them from its start leads there. -/
structure SyntaxTree.Printable (tree : SyntaxTree) : Prop where
  nodes : ∀ node, tree.root.Contains node → node.start.Printable ∧ node.stop.Printable
  scalars : ∀ node, tree.root.Contains node →
    (node.kind = .stringScalar ∨ node.kind = .blockScalar) →
      node.start.line.toNat + node.text.toList.count '\n' < UInt32.size - 1
      ∧ node.start.character.toNat + node.text.toList.length < UInt32.size - 1

theorem Value.Anchor.printable {value : Value} {range : Range} (h : value.Anchor range)
    (hparts : ∀ part, value.Contains part → part.range.Printable) : range.Printable := by
  cases h with
  | whole => exact hparts value (.self value)
  | name hvalue hentry =>
    obtain ⟨before, after, rfl, -⟩ := List.lookup_eq_some_iff.1 hentry
    exact hparts _ (.entry hvalue (List.mem_append_right before List.mem_cons_self) (.self _))
  | item hvalue hitem => exact hparts _ (.item hvalue hitem (.self _))

/-- A position in a text can be printed after moving it, if the end of the text could be. -/
theorem Position.printable_shift {before text : List Char} (hbefore : before <+: text)
    {lines characters : UInt32} (hlines : lines.toNat + text.count '\n' < UInt32.size - 1)
    (hcharacters : characters.toNat + text.length < UInt32.size - 1) :
    ((Position.after before).shift lines characters).Printable := by
  have hlength : before.length ≤ text.length := hbefore.length_le
  have hcount : before.count '\n' ≤ text.count '\n' := hbefore.sublist.count_le '\n'
  have hlast := Text.length_lastLine_le before
  have hline : (Position.after before).line.toNat = before.count '\n' :=
    Position.toNat_line_after (by omega)
  have hcharacter : (Position.after before).character.toNat = (Text.lastLine before).length :=
    Position.toNat_character_after (by omega)
  simp only [Printable, shift, toNat_saturatingAdd]
  omega

theorem NodeKind.printable_place {kind : NodeKind} {start : Position} {text lead body : List Char}
    (hwritten : lead ++ substitution body <+: text)
    (hlines : start.line.toNat + text.count '\n' < UInt32.size - 1)
    (hcharacters : start.character.toNat + text.length < UInt32.size - 1) :
    (kind.place start (actualRange lead body)).Printable := by
  -- a block is not moved by any characters, which is no more than the others are moved
  have hindent : (if kind = .blockScalar then 0 else start.character).toNat + text.length
      < UInt32.size - 1 := by
    split
    · rw [UInt32.toNat_zero]
      omega
    · exact hcharacters
  have hlead : lead <+: text := (List.prefix_append _ _).trans hwritten
  exact ⟨Position.printable_shift hlead hlines hindent,
    Position.printable_shift hwritten hlines hindent⟩

theorem Document.Anchor.printable {document : Document} {tree : SyntaxTree} {range : Range}
    (h : document.Anchor tree range) (hdocument : document.Printable) (htree : tree.Printable) :
    range.Printable := by
  cases h with
  | declarations => exact hdocument.pipelineRange
  | call hcall hdefinition hanchor =>
    cases hanchor with
    | enumeration hparameter _ => exact hdocument.parameters _ _ _ hdefinition _ _ hparameter
    | whole => exact hdocument.calls _ hcall
    | argument hargument hanchor =>
      exact hanchor.printable (hdocument.arguments _ hcall _ _ hargument)
  | reference hnode hkind hfound hreference =>
    obtain ⟨lead, body, hstands⟩ := exists_standsAt_of_mem_references hfound hreference
    obtain ⟨hlines, hcharacters⟩ := htree.scalars _ hnode hkind
    rw [hstands.range_eq]
    exact NodeKind.printable_place hstands.written hlines hcharacters

/-- **Where reports point.** Every diagnostic has a range, and it is one of the anchors of the
    document. If every coordinate of the document and of the tree is below the largest one, and the
    lines and characters of each scalar, counted from its start, stay below it, then every
    diagnostic can be printed. -/
theorem analyze_anchored (document : Document) (tree : SyntaxTree) (external : List String) :
    (∀ diagnostic ∈ (analyze document tree external).diagnostics,
      ∃ range, diagnostic.range = some range ∧ document.Anchor tree range)
    ∧ (document.Printable → tree.Printable →
      ∀ diagnostic ∈ (analyze document tree external).diagnostics,
        diagnostic.display?.isSome = true) := by
  have hfinding : ∀ diagnostic ∈ (analyze document tree external).diagnostics,
      ∃ finding ∈ findings document tree external, finding.diagnostic = diagnostic := by
    intro diagnostic hmem
    exact List.mem_map.1 hmem
  constructor
  · intro diagnostic hmem
    obtain ⟨finding, hfinding, rfl⟩ := hfinding diagnostic hmem
    exact ⟨finding.range, rfl, anchor_of_mem_findings hfinding⟩
  · intro hdocument htree diagnostic hmem
    obtain ⟨finding, hfinding, rfl⟩ := hfinding diagnostic hmem
    have hanchor := anchor_of_mem_findings hfinding
    exact Finding.isSome_display?_iff.2 (hanchor.printable hdocument htree)

/-- A scalar whose last character stands just below the largest coordinates. -/
theorem analyze_anchored_largest :
    let node : Node :=
      { kind := .stringScalar, start := ⟨4294967294, 4294967276⟩, stop := ⟨4294967294, 4294967294⟩
        text := "<< parameters.x >>" }
    let tree : SyntaxTree := ⟨node⟩
    Document.Printable {} ∧ tree.Printable ∧ (analyze {} tree []).isEmpty = false
      ∧ ∀ diagnostic ∈ (analyze {} tree []).diagnostics, diagnostic.display?.isSome = true := by
  intro node tree
  have hdocument : Document.Printable {} :=
    ⟨by decide, nofun, fun kind => by cases kind <;> nofun, fun kind => by cases kind <;> nofun,
      nofun, nofun⟩
  have honly : ∀ other, tree.root.Contains other → other = node := by
    rintro other (_ | ⟨hchild, -⟩)
    · rfl
    · exact absurd hchild List.not_mem_nil
  have htree : tree.Printable := by
    refine ⟨fun other hother => ?_, fun other hother _ => ?_⟩
    · rw [honly other hother]
      decide
    · rw [honly other hother]
      decide
  exact ⟨hdocument, htree, by decide +kernel, (analyze_anchored {} tree []).2 hdocument htree⟩

end PipelineLint
