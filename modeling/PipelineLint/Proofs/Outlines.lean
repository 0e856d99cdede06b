import PipelineLint.Proofs.Provision

set_option autoImplicit false

/-! # What the analysis never looks at

The outline of a document or a tree is what is left of it when everything is wiped out that the
analysis never looks at. Of a value that a call supplies, for example, the outline keeps the sort,
the place and the text of a string; of a map only what stands under `name`, and of a list what its
items are, but not what is inside them.

Each check finds the same in an outline as in the original. Two documents with the same outline, and
two trees with the same outline, therefore lead to the same report (`analyze_eq_of_outline_eq`). -/

namespace PipelineLint

/-! ## Dictionaries with other values -/

namespace Dict

variable {α β : Type}

/-- The dictionary with another value under each name. -/
def mapValues (f : α → β) (dict : Dict α) : Dict β :=
  ⟨dict.entries.map fun entry => (entry.1, f entry.2), List.pairwise_map.2 dict.sorted⟩

@[simp] theorem get?_mapValues (f : α → β) (dict : Dict α) (name : String) :
    (dict.mapValues f).get? name = (dict.get? name).map f := by
  obtain ⟨entries, hsorted⟩ := dict
  show (entries.map fun entry => (entry.1, f entry.2)).lookup name = (entries.lookup name).map f
  clear hsorted
  induction entries with
  | nil => rfl
  | cons entry rest ih =>
    rw [List.map_cons, Entries.lookup_cons_eq_ite, Entries.lookup_cons_eq_ite, ih]
    split <;> rfl

@[simp] theorem contains_mapValues (f : α → β) (dict : Dict α) (name : String) :
    (dict.mapValues f).contains name = dict.contains name := by
  simp [contains]

@[simp] theorem isEmpty_mapValues (f : α → β) (dict : Dict α) :
    (dict.mapValues f).isEmpty = dict.isEmpty := by
  simp [isEmpty, mapValues]

theorem values_mapValues (f : α → β) (dict : Dict α) :
    (dict.mapValues f).values = dict.values.map f := by
  simp [values, mapValues]

end Dict

/-! ## Outlines -/

namespace Value

/-- What counts of the value under `name` in a map: its place, and its text if it is a string. -/
def nameOutline (value : Value) : Value where
  payload :=
    match value.payload with
    | .string text => .string text
    | _ => .boolean false
  range := value.range

/-- What counts of the entries of a map: the one under `name`. -/
def nameEntries (entries : List (String × Value)) : List (String × Value) :=
  ((entries.lookup "name").map fun entry => ("name", entry.nameOutline)).toList

/-- What counts of an item in a list: its place, its sort, and its text if it is a string. -/
def itemOutline (item : Value) : Value where
  payload :=
    match item.payload with
    | .string text => .string text
    | .boolean _ => .boolean false
    | .integer _ => .integer 0
    | .map _ => .map []
    | .sequence _ => .sequence []
  range := item.range

/-- What counts of a value that a call supplies. -/
def outline (value : Value) : Value where
  payload :=
    match value.payload with
    | .string text => .string text
    | .boolean _ => .boolean false
    | .integer _ => .integer 0
    | .map entries => .map (nameEntries entries)
    | .sequence items => .sequence (items.map itemOutline)
  range := value.range

end Value

/-- What counts of a parameter of the pipeline: its kind. -/
def Parameter.outline (parameter : Parameter) : Parameter where
  name := ""
  type := .ofKind [] parameter.kind

/-- What counts of a definition: all but its name. -/
def Definition.outline (definition : Definition) : Definition :=
  { definition with name := "" }

/-- What counts of a call. -/
def Invocation.outline (call : Invocation) : Invocation :=
  { call with arguments := call.arguments.mapValues Value.outline }

/-- What counts of a document. -/
def Document.outline (document : Document) : Document where
  pipelineParameters := document.pipelineParameters.mapValues Parameter.outline
  pipelineRange := document.pipelineRange
  commands := document.commands.mapValues Definition.outline
  jobs := document.jobs.mapValues Definition.outline
  executors := document.executors.mapValues Definition.outline
  orbs := document.orbs
  invocations := document.invocations.map Invocation.outline

/-- Whether nodes of this sort are scalars. -/
def NodeKind.isScalar : NodeKind → Bool
  | stringScalar | blockScalar => true
  | mapping | sequence | other => false

namespace Node

mutual

/-- What counts of a node: its sort and its children, and its start and text if it is a scalar. -/
def outline : Node → Node
  | .mk kind start _ text children =>
    { kind := kind
      start := if kind.isScalar then start else {}
      stop := {}
      text := if kind.isScalar then text else ""
      children := outlineAll children }

/-- What counts of several nodes. -/
def outlineAll : List Node → List Node
  | [] => []
  | node :: rest => outline node :: outlineAll rest

end

theorem outlineAll_eq_map (nodes : List Node) : outlineAll nodes = nodes.map outline := by
  induction nodes with
  | nil => rfl
  | cons node rest ih => rw [outlineAll, ih, List.map_cons]

@[simp] theorem kind_outline (node : Node) : node.outline.kind = node.kind := by
  cases node
  rw [outline]

theorem children_outline (node : Node) : node.outline.children = node.children.map outline := by
  cases node
  rw [outline, outlineAll_eq_map]

theorem start_outline {node : Node} (h : node.kind.isScalar = true) :
    node.outline.start = node.start := by
  cases node
  rw [outline]
  exact if_pos h

theorem text_outline {node : Node} (h : node.kind.isScalar = true) :
    node.outline.text = node.text := by
  cases node
  rw [outline]
  exact if_pos h

end Node

/-- What counts of a tree. -/
def SyntaxTree.outline (tree : SyntaxTree) : SyntaxTree :=
  ⟨tree.root.outline⟩

/-! ## Values -/

namespace Value

@[simp] theorem range_outline (value : Value) : value.outline.range = value.range := rfl

@[simp] theorem tag_outline (value : Value) : value.outline.tag = value.tag := by
  unfold tag outline
  cases value.payload <;> rfl

@[simp] theorem text?_outline (value : Value) : value.outline.text? = value.text? := by
  unfold text? outline
  cases value.payload <;> rfl

theorem text?_nameOutline (value : Value) : value.nameOutline.text? = value.text? := by
  unfold text? nameOutline
  cases value.payload <;> rfl

theorem lookup_nameEntries (entries : List (String × Value)) :
    (nameEntries entries).lookup "name" = (entries.lookup "name").map nameOutline := by
  unfold nameEntries
  cases entries.lookup "name" <;> rfl

end Value

namespace Check

theorem executor_outline (site : Site) (value : Value) (declared : Parameter) (entity : String) :
    executor site value.outline declared entity = executor site value declared entity := by
  cases hvalue : value.payload with
  | string name => simp only [executor, executorName, Value.outline, hvalue]
  | boolean flag => simp only [executor, Value.outline, hvalue]
  | integer number => simp only [executor, Value.outline, hvalue]
  | sequence items => simp only [executor, Value.outline, hvalue]
  | map entries =>
    have hname : ((Value.nameEntries entries).lookup "name").bind
          (fun entry => entry.text?.map (·, entry.range))
        = (entries.lookup "name").bind fun entry => entry.text?.map (·, entry.range) := by
      rw [Value.lookup_nameEntries, Option.bind_map]
      simp only [Function.comp_def, Value.text?_nameOutline]
      rfl
    simp only [executor, executorName, Value.outline, hvalue, hname]

theorem step_itemOutline (document : Document) (declared : Parameter) (entity : String)
    (item : Value) :
    step document declared entity item.itemOutline = step document declared entity item := by
  unfold step Value.itemOutline
  cases item.payload <;> rfl

theorem steps_outline (document : Document) (value : Value) (declared : Parameter)
    (entity : String) :
    steps document value.outline declared entity = steps document value declared entity := by
  unfold steps Value.outline
  cases value.payload with
  | sequence items => simp only [List.flatMap_map, step_itemOutline]
  | _ => rfl

theorem literal_outline (site : Site) (value : Value) (declared : Parameter) (entity : String) :
    literal site value.outline declared entity = literal site value declared entity := by
  unfold literal
  split
  · simp only [scalar, Value.tag_outline, Value.range_outline]
  · simp only [scalar, Value.tag_outline, Value.range_outline]
  · simp only [scalar, Value.tag_outline, Value.range_outline]
  · simp only [enumeration, Value.text?_outline, Value.range_outline]
  · exact executor_outline site value declared entity
  · exact steps_outline site.document value declared entity
  · simp only [envVarName, Value.tag_outline, Value.range_outline]

theorem value_outline (site : Site) (value : Value) (declared : Parameter) (entity : String) :
    Check.value site value.outline declared entity = Check.value site value declared entity := by
  simp only [Check.value, Value.text?_outline, forwarded, Value.range_outline, literal_outline]

/-! ## Calls -/

theorem parameter_outline (site : Site) (supplied : Dict Value) (entity : String) (range : Range)
    (declared : Parameter) :
    parameter site (supplied.mapValues Value.outline) entity range declared
      = parameter site supplied entity range declared := by
  unfold parameter
  rw [Dict.get?_mapValues]
  cases supplied.get? declared.name with
  | some argument => simp only [Option.map_some, value_outline]
  | none => rfl

theorem arguments_outline (site : Site) (supplied : Dict Value) (entity : String) (range : Range)
    (declared : Dict Parameter) :
    arguments site (supplied.mapValues Value.outline) entity range declared
      = arguments site supplied entity range declared := by
  have hparameter : parameter site (supplied.mapValues Value.outline) entity range
      = parameter site supplied entity range :=
    funext (parameter_outline site supplied entity range)
  rw [arguments, arguments, hparameter]
  simp only [Dict.mapValues, List.filterMap_map, Function.comp_def, Value.range_outline]

end Check

/-! ## What a place of a document sees -/

theorem Parameter.kind_outline (parameter : Parameter) :
    parameter.outline.kind = parameter.kind := by
  unfold outline
  cases hkind : parameter.kind <;> rfl

namespace Document

variable (document : Document)

theorem definition?_outline (kind : EntityKind) (name : String) :
    document.outline.definition? kind name
      = (document.definition? kind name).map Definition.outline := by
  cases kind with
  | command => exact Dict.get?_mapValues _ _ _
  | job => exact Dict.get?_mapValues _ _ _
  | executor => exact Dict.get?_mapValues _ _ _

theorem blocks_outline : document.outline.blocks = document.blocks := by
  simp only [blocks, outline, Dict.values_mapValues, ← List.map_append, List.map_map]
  rfl

theorem knowsExecutor_outline (external : List String) (name : String) :
    document.outline.knowsExecutor external name = document.knowsExecutor external name := by
  have hown : document.outline.executors.contains name = document.executors.contains name :=
    Dict.contains_mapValues _ _ _
  rw [knowsExecutor, knowsExecutor, hown]
  rfl

theorem knowsCommand_outline (name : String) :
    document.outline.knowsCommand name = document.knowsCommand name := by
  have hown : document.outline.hasCommand name = document.hasCommand name :=
    Dict.contains_mapValues _ _ _
  rw [knowsCommand, knowsCommand, hown]
  rfl

theorem kind_visibleAt_outline (p : Position) (name : String) :
    (((Scopes.ofDocument document.outline).visibleAt p).get? name).map Parameter.kind
      = (((Scopes.ofDocument document).visibleAt p).get? name).map Parameter.kind := by
  have hinnermost : (Scopes.ofDocument document.outline).innermost? p
      = (Scopes.ofDocument document).innermost? p := by
    simp only [Scopes.innermost?, Scopes.ofDocument, blocks_outline]
  have hpipeline : ((Scopes.ofDocument document.outline).pipeline.get? name).map Parameter.kind
      = ((Scopes.ofDocument document).pipeline.get? name).map Parameter.kind := by
    simp only [Scopes.ofDocument, outline, Dict.get?_mapValues, Option.map_map, Function.comp_def,
      Parameter.kind_outline]
  unfold Scopes.visibleAt
  rw [hinnermost]
  cases (Scopes.ofDocument document).innermost? p with
  | some block => simp only [Dict.get?_overlay, Option.map_or, hpipeline]
  | none => exact hpipeline

/-- A reference names parameters of the same kind. -/
theorem kind_resolve?_outline (p : Position) (reference : Reference) :
    ((Scopes.ofDocument document.outline).resolve?
        ((Scopes.ofDocument document.outline).visibleAt p) reference).map Parameter.kind
      = ((Scopes.ofDocument document).resolve? ((Scopes.ofDocument document).visibleAt p)
          reference).map Parameter.kind := by
  unfold Scopes.resolve?
  cases reference.qualifier with
  | pipeline =>
    simp only [Scopes.ofDocument, outline, Dict.get?_mapValues, Option.map_map, Function.comp_def,
      Parameter.kind_outline]
  | localScope => exact document.kind_visibleAt_outline p reference.name

theorem site_outline_extends (external : List String) (p : Position) :
    (Site.atPosition document.outline external (.ofDocument document.outline) p).Extends
      (.atPosition document external (.ofDocument document) p) (fun _ => false)
      (fun _ => false) := by
  refine ⟨document.kind_resolve?_outline p, fun name _ _ => ?_, fun name _ => ?_⟩
  · exact (document.knowsExecutor_outline external name).trans (Bool.or_false _).symm
  · exact (document.knowsCommand_outline name).trans (Bool.or_false _).symm

end Document

/-! ## The three checks -/

namespace Check

theorem declarations_outline (document : Document) :
    declarations document.outline = declarations document := by
  simp only [declarations, Document.outline, Dict.isEmpty_mapValues]

theorem invocation_outline (document : Document) (external : List String) (call : Invocation) :
    invocation document.outline external (.ofDocument document.outline) call.outline
      = invocation document external (.ofDocument document) call := by
  have hdefinition : document.outline.definition? call.outline.target call.outline.entity
      = (document.definition? call.target call.entity).map Definition.outline :=
    document.definition?_outline call.target call.entity
  unfold invocation
  rw [hdefinition]
  cases document.definition? call.target call.entity with
  | none => rfl
  | some definition =>
    have hsite := arguments_of_extends (document.site_outline_extends external call.range.start)
      call.arguments call.entity call.range definition.parameters
    rw [filter_remains_none] at hsite
    exact (arguments_outline _ call.arguments call.entity call.range _).trans hsite

theorem invocations_outline (document : Document) (external : List String) :
    invocations document.outline external = invocations document external := by
  have hcalls : document.outline.invocations = document.invocations.map Invocation.outline := rfl
  simp only [invocations, hcalls, List.flatMap_map, invocation_outline]

theorem reference_eq_of_kind_eq {scopes scopes' : Scopes} {visible visible' : Dict Parameter}
    {node node' : Node} {reference : Reference}
    (h : (scopes'.resolve? visible' reference).map Parameter.kind
      = (scopes.resolve? visible reference).map Parameter.kind)
    (hkind : node'.kind = node.kind) (hstart : node'.start = node.start) :
    Check.reference scopes' visible' node' reference
      = Check.reference scopes visible node reference := by
  unfold Check.reference
  cases hresolved : scopes.resolve? visible reference with
  | some parameter =>
    rw [hresolved, Option.map_some, Option.map_eq_some_iff] at h
    obtain ⟨parameter', hparameter', -⟩ := h
    rw [hparameter']
  | none =>
    rw [hresolved, Option.map_none, Option.map_eq_none_iff] at h
    rw [h, hkind, hstart]

theorem scalarNode_outline (document : Document) {node : Node} (h : node.kind.isScalar = true) :
    scalarNode (.ofDocument document.outline) node.outline
      = scalarNode (.ofDocument document) node := by
  unfold scalarNode
  rw [Node.text_outline h, Node.start_outline h]
  split
  · apply List.filterMap_congr
    intro reference _
    exact reference_eq_of_kind_eq (document.kind_resolve?_outline node.start reference)
      node.kind_outline (Node.start_outline h)
  · rfl

end Check

/-- An outline is walked as the original is. -/
theorem Node.walk_map_outline (stack : List Node) :
    walk (stack.map outline) = (walk stack).map outline := by
  fun_induction walk stack with
  | case1 => rw [List.map_nil, walk]
  | case2 node rest ih =>
    rw [List.map_cons, walk, children_outline, ← List.map_append, ih, List.map_cons]

theorem SyntaxTree.nodesOfKind_outline (tree : SyntaxTree) (kind : NodeKind) :
    tree.outline.nodesOfKind kind = (tree.nodesOfKind kind).map Node.outline := by
  have hwalk : Node.walk [tree.outline.root] = (Node.walk [tree.root]).map Node.outline :=
    Node.walk_map_outline [tree.root]
  simp only [nodesOfKind, hwalk, List.filter_map, Function.comp_def, Node.kind_outline]

theorem Check.tree_outline (document : Document) (tree : SyntaxTree) :
    Check.tree document.outline tree.outline = Check.tree document tree := by
  simp only [Check.tree, SyntaxTree.nodesOfKind_outline, ← List.map_append, List.flatMap_map]
  apply List.flatMap_congr
  intro node hmem
  apply Check.scalarNode_outline
  rcases List.mem_append.1 hmem with hnode | hnode
  · rw [show node.kind = .stringScalar by simpa using (List.mem_filter.1 hnode).2]
    rfl
  · rw [show node.kind = .blockScalar by simpa using (List.mem_filter.1 hnode).2]
    rfl

/-- The report on an outline is the report on the original. -/
theorem analyze_outline (document : Document) (tree : SyntaxTree) (external : List String) :
    analyze document.outline tree.outline external = analyze document tree external := by
  rw [analyze, analyze, findings, findings, Check.declarations_outline, Check.invocations_outline,
    Check.tree_outline]

/-- **What the analysis never looks at.** If two documents and two trees differ only in what their
    outlines leave out, they have the same report. -/
theorem analyze_eq_of_outline_eq (document document' : Document) (tree tree' : SyntaxTree)
    (external : List String) (hdocument : document.outline = document'.outline)
    (htree : tree.outline = tree'.outline) :
    analyze document tree external = analyze document' tree' external := by
  calc analyze document tree external
      = analyze document.outline tree.outline external :=
        (analyze_outline document tree external).symm
    _ = analyze document'.outline tree'.outline external := by rw [hdocument, htree]
    _ = analyze document' tree' external := analyze_outline document' tree' external

/-- Two inputs that differ wherever they may. The report names the executor, the step and the
    reference that are wrong in both. -/
theorem analyze_eq_of_outline_eq_noise :
    let line (number : UInt32) : Range := ⟨⟨number, 0⟩, ⟨number, 20⟩⟩
    let document (noise : String) (flag : Bool) (inside : List (String × Value)) : Document :=
      let valueAt (number : UInt32) (payload : Payload Value) : Value :=
        { name := noise, payload, range := line number }
      let definition (type : ParamType) : Definition :=
        { name := noise, range := line 1, parameters := .ofList [("x", { name := "x", type })] }
      let host : Value := valueAt 5 (.map (("name", valueAt 6 (.string "large")) :: inside))
      let steps : Value :=
        valueAt 8 (.sequence [valueAt 9 (.map inside), valueAt 10 (.boolean flag)])
      { file := noise
        pipelineParameters :=
          .ofList [("tag", { name := noise, type := .string, optional := flag })]
        jobs := .ofList [("build", definition .executor)]
        commands := .ofList [("run", definition .steps)]
        invocations :=
          [{ entity := "build", target := .job, range := line 4
             arguments := .ofList [("x", host)] },
            { entity := "run", target := .command, range := line 7
              arguments := .ofList [("x", steps)] }] }
    let tree (noise : String) (p : Position) : SyntaxTree :=
      let scalar : Node :=
        { kind := .stringScalar, start := ⟨2, 0⟩, stop := p, text := "<< pipeline.parameters.tga >>" }
      ⟨{ kind := .mapping, start := p, stop := p, text := noise, children := [scalar] }⟩
    let shell : Value := { payload := .integer 7, range := line 3 }
    let report := analyze (document "" false []) (tree "" {}) []
    report.diagnostics.map (·.range.map (·.start.line)) = [some 6, some 10, some 2]
      ∧ report = analyze (document "file" true [("shell", shell)]) (tree "text" ⟨3, 4⟩) [] := by
  intro line document tree shell report
  have hwalk : Node.walk [(tree "" {}).root] = (tree "" {}).root :: (tree "" {}).root.children := by
    simp [tree, Node.walk]
  refine ⟨?_, analyze_eq_of_outline_eq _ _ _ _ [] rfl rfl⟩
  simp only [report, analyze, findings, Check.tree, SyntaxTree.nodesOfKind, hwalk]
  decide +kernel

end PipelineLint
