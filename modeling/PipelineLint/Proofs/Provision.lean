import PipelineLint.Analysis
import PipelineLint.Proofs.Messages
import PipelineLint.Proofs.Typing

set_option autoImplicit false

/-! # Names that are provided from outside

Executors may be provided from outside, and executors and commands by orbs. The checks read these
names in two places only, so providing more of them takes away the findings about unknown executors
and commands that the new names settle, and leaves all others as they are and in their order.

`Site.Extends` says what one site knows more than another; each check of a value keeps the findings
that the additional names do not settle (`Check.value_of_extends`). The other data of a site may
differ as long as references resolve to parameters of the same kinds, so the same lemmas compare two
documents. -/

namespace PipelineLint

/-! ## Knowing more names -/

/-- Whether one site resolves references to the kinds of parameters that another one resolves them
    to, knows the executors that the other one knows and `executors`, and the commands that the
    other one knows and `commands`. Nobody asks for a name with a substitution in it, or for an
    executor without a name. -/
structure Site.Extends (more less : Site) (executors commands : String → Bool) : Prop where
  kind_eq : ∀ reference,
    (more.scopes.resolve? more.visible reference).map Parameter.kind
      = (less.scopes.resolve? less.visible reference).map Parameter.kind
  knowsExecutor_eq : ∀ name, name ≠ "" → ¬ Text.HoldsPair '<' name.toList →
    more.document.knowsExecutor more.external name
      = (less.document.knowsExecutor less.external name || executors name)
  knowsCommand_eq : ∀ name, ¬ Text.HoldsPair '<' name.toList →
    more.document.knowsCommand name = (less.document.knowsCommand name || commands name)

/-- Whether something stays wrong when these executors and commands are known, too. -/
def Finding.remains (executors commands : String → Bool) (finding : Finding) : Bool :=
  match finding.cause with
  | .unknownExecutor name => !executors name
  | .unknownCommand name => !commands name
  | _ => true

theorem filter_remains_none (findings : List Finding) :
    findings.filter (Finding.remains (fun _ => false) (fun _ => false)) = findings := by
  apply List.filter_eq_self.2
  intro finding _
  unfold Finding.remains
  split <;> rfl

namespace Check

section

variable {executors commands : String → Bool}

@[simp] theorem remains_wrongType (declared : Parameter) (expected : ParamKind) (entity : String)
    (range : Range) :
    (wrongType declared expected entity range).remains executors commands = true := rfl

theorem scalar_remains (value : Value) (declared : Parameter) (entity : String) :
    (scalar value declared entity).filter (Finding.remains executors commands)
      = scalar value declared entity := by
  unfold scalar
  split <;> simp

theorem enumeration_remains (value : Value) (declared : Parameter) (allowed : List String)
    (entity : String) :
    (enumeration value declared allowed entity).filter (Finding.remains executors commands)
      = enumeration value declared allowed entity := by
  unfold enumeration
  split
  · simp
  · split <;> rfl

theorem envVarName_remains (value : Value) (declared : Parameter) (entity : String) :
    (envVarName value declared entity).filter (Finding.remains executors commands)
      = envVarName value declared entity := by
  unfold envVarName
  split <;> simp

variable {more less : Site}

/-- A complaint that a name is unknown stays away, too, if the name is one of the new ones. A name
    with a substitution in it is not asked for. -/
theorem ite_known_or {name : String} {knows known new : Bool} {finding : Finding}
    (hknows : ¬ Text.HoldsPair '<' name.toList → knows = (known || new))
    (hnew : finding.remains executors commands = !new) :
    (if opensSubstitution name.toList || knows then [] else [finding])
      = (if opensSubstitution name.toList || known then [] else [finding]).filter
          (Finding.remains executors commands) := by
  cases hopens : opensSubstitution name.toList with
  | true => rfl
  | false =>
    have hliteral : ¬ Text.HoldsPair '<' name.toList := by
      rw [← opensSubstitution_iff, hopens]
      decide
    rw [hknows hliteral]
    cases known <;> cases new <;> simp [hnew]

theorem executorName_of_extends (h : more.Extends less executors commands) (value : Value)
    (name : String) (range : Range) :
    executorName more value name range
      = (executorName less value name range).filter (Finding.remains executors commands) := by
  unfold executorName
  by_cases hempty : name.isEmpty = true
  · simp only [hempty, if_true]
    rfl
  · rw [if_neg hempty, if_neg hempty]
    simp only [namedExecutor, ← ite_or, ← Bool.or_eq_true]
    exact ite_known_or (h.knowsExecutor_eq name (by simpa using hempty)) rfl

theorem executor_of_extends (h : more.Extends less executors commands) (value : Value)
    (declared : Parameter) (entity : String) :
    executor more value declared entity
      = (executor less value declared entity).filter (Finding.remains executors commands) := by
  unfold executor
  split
  · exact executorName_of_extends h value _ _
  · split
    · exact executorName_of_extends h value _ _
    · rfl
  · rfl

theorem step_of_extends (h : more.Extends less executors commands) (declared : Parameter)
    (entity : String) (item : Value) :
    step more.document declared entity item
      = (step less.document declared entity item).filter (Finding.remains executors commands) := by
  unfold step
  split
  · next command _ => exact ite_known_or (h.knowsCommand_eq command) rfl
  · rfl
  · rfl
  · rfl
  · rfl

theorem steps_of_extends (h : more.Extends less executors commands) (value : Value)
    (declared : Parameter) (entity : String) :
    steps more.document value declared entity
      = (steps less.document value declared entity).filter
          (Finding.remains executors commands) := by
  unfold steps
  split
  · rw [List.filter_flatMap]
    exact List.flatMap_congr fun item _ => step_of_extends h declared entity item
  · rfl

theorem literal_of_extends (h : more.Extends less executors commands) (value : Value)
    (declared : Parameter) (entity : String) :
    literal more value declared entity
      = (literal less value declared entity).filter (Finding.remains executors commands) := by
  unfold literal
  cases declared.type with
  | string => exact (scalar_remains value declared entity).symm
  | boolean => exact (scalar_remains value declared entity).symm
  | integer => exact (scalar_remains value declared entity).symm
  | enum allowed => exact (enumeration_remains value declared allowed entity).symm
  | executor => exact executor_of_extends h value declared entity
  | steps => exact steps_of_extends h value declared entity
  | envVarName => exact (envVarName_remains value declared entity).symm

theorem forwarded_of_extends (h : more.Extends less executors commands) (reference : Reference)
    (value : Value) (declared : Parameter) (entity : String) :
    forwarded more reference value declared entity
      = (forwarded less reference value declared entity).filter
          (Finding.remains executors commands) := by
  have hkinds := h.kind_eq reference
  unfold forwarded
  cases hless : less.scopes.resolve? less.visible reference with
  | some resolved =>
    rw [hless, Option.map_some, Option.map_eq_some_iff] at hkinds
    obtain ⟨resolved', hmore, hkind⟩ := hkinds
    simp only [hmore, hkind]
    split <;> rfl
  | none =>
    rw [hless, Option.map_none, Option.map_eq_none_iff] at hkinds
    simp only [hkinds]
    rfl

theorem value_of_extends (h : more.Extends less executors commands) (value : Value)
    (declared : Parameter) (entity : String) :
    Check.value more value declared entity
      = (Check.value less value declared entity).filter (Finding.remains executors commands) := by
  unfold Check.value
  split
  · exact forwarded_of_extends h _ value declared entity
  · exact literal_of_extends h value declared entity

theorem parameter_of_extends (h : more.Extends less executors commands) (supplied : Dict Value)
    (entity : String) (range : Range) (declared : Parameter) :
    parameter more supplied entity range declared
      = (parameter less supplied entity range declared).filter
          (Finding.remains executors commands) := by
  have hallowed : (allowedValues declared).filter (Finding.remains executors commands)
      = allowedValues declared := by
    unfold allowedValues
    split <;> rfl
  rw [parameter, parameter, List.filter_append, hallowed]
  congr 1
  split
  · exact value_of_extends h _ declared entity
  · split <;> rfl

theorem arguments_of_extends (h : more.Extends less executors commands) (supplied : Dict Value)
    (entity : String) (range : Range) (declared : Dict Parameter) :
    arguments more supplied entity range declared
      = (arguments less supplied entity range declared).filter
          (Finding.remains executors commands) := by
  rw [arguments, arguments, List.filter_append, List.filter_flatMap, List.filter_filterMap]
  congr 1
  · exact List.flatMap_congr fun parameter _ =>
      parameter_of_extends h supplied entity range parameter
  · apply List.filterMap_congr
    intro argument _
    split <;> rfl

/-- What a call is told when more names are known, if the call means the same definition. -/
theorem invocation_of_extends {changed document : Document} {external external' : List String}
    {call : Invocation}
    (h : (Site.atPosition changed external' (.ofDocument changed) call.range.start).Extends
      (.atPosition document external (.ofDocument document) call.range.start) executors commands)
    (hdefinition : changed.definition? call.target call.entity
      = document.definition? call.target call.entity) :
    invocation changed external' (.ofDocument changed) call
      = (invocation document external (.ofDocument document) call).filter
          (Finding.remains executors commands) := by
  unfold invocation
  rw [hdefinition]
  split
  · exact arguments_of_extends h _ _ _ _
  · rfl

end

end Check

/-! ## More orbs and external executors -/

theorem NameSet.contains_foldl_add (names : NameSet) (added : List String) (name : String) :
    (added.foldl add names).contains name = true
      ↔ names.contains name = true ∨ name ∈ added := by
  induction added generalizing names with
  | nil => simp
  | cons first rest ih =>
    rw [List.foldl_cons, ih, contains_add, Bool.or_eq_true, beq_iff_eq, List.mem_cons]
    tauto

/-- Whether a name is one of these aliases, one without a slash, then a slash and something more. -/
def FromOrb (aliases : List String) (name : String) : Prop :=
  ∃ orb ∈ aliases, '/' ∉ orb.toList ∧ ∃ rest, name = orb ++ "/" ++ rest ∧ rest ≠ ""

instance (aliases : List String) : DecidablePred (FromOrb aliases) := fun name =>
  decidable_of_iff (∃ orb ∈ aliases, '/' ∉ orb.toList
      ∧ ∃ rest, name = orb ++ "/" ++ rest ++ "" ∧ rest ≠ "") <| by
    simp only [String.append_empty, FromOrb]

namespace Document

/-- The document with more imported orbs. -/
def importing (document : Document) (aliases : List String) : Document :=
  { document with orbs := aliases.foldl NameSet.add document.orbs }

theorem imports_importing {document : Document} {aliases : List String} {name : String} :
    (document.importing aliases).imports name = true
      ↔ document.imports name = true ∨ FromOrb aliases name := by
  rw [imports_iff, imports_iff]
  unfold Imports FromOrb importing
  simp only [NameSet.contains_foldl_add]
  constructor
  · rintro ⟨orb, rest, hname, hslash, hrest, hold | hnew⟩
    · exact Or.inl ⟨orb, rest, hname, hslash, hrest, hold⟩
    · refine Or.inr ⟨_, hnew, by simpa using hslash, String.ofList rest, ?_, ?_⟩
      · rw [← String.toList_inj, hname]
        simp
      · simpa using hrest
  · rintro (⟨orb, rest, hname, hslash, hrest, hold⟩ | ⟨orb, hnew, hslash, rest, rfl, hrest⟩)
    · exact ⟨orb, rest, hname, hslash, hrest, Or.inl hold⟩
    · exact ⟨orb.toList, rest.toList, by simp, hslash, by simpa using hrest,
        Or.inr (by simpa using hnew)⟩

theorem knowsExecutor_importing (document : Document) (external names aliases : List String)
    (name : String) :
    (document.importing aliases).knowsExecutor (external ++ names) name
      = (document.knowsExecutor external name
        || decide (name ∈ names ∨ FromOrb aliases name)) := by
  rw [Bool.eq_iff_iff]
  simp only [knowsExecutor, Bool.or_eq_true, imports_importing, List.contains_iff_mem,
    List.mem_append, decide_eq_true_eq]
  have hexecutors : (document.importing aliases).executors = document.executors := rfl
  rw [hexecutors]
  tauto

theorem knowsCommand_importing (document : Document) (aliases : List String) (name : String) :
    (document.importing aliases).knowsCommand name
      = (document.knowsCommand name || decide (FromOrb aliases name)) := by
  rw [Bool.eq_iff_iff]
  simp only [knowsCommand, Bool.or_eq_true, imports_importing, decide_eq_true_eq]
  have hcommand : (document.importing aliases).hasCommand name = document.hasCommand name := rfl
  rw [hcommand]
  tauto

end Document

/-! ## What is left of a report -/

/-- Whether a diagnostic says that an executor or a command is unknown which is among the external
    executors `names` or comes from an orb with one of these aliases. -/
def Diagnostic.Settled (names aliases : List String) (diagnostic : Diagnostic) : Prop :=
  (∃ name, diagnostic.message = "Executor " ++ name ++ " is not defined"
    ∧ (name ∈ names ∨ FromOrb aliases name))
  ∨ ∃ name, diagnostic.message = "Cannot find a definition for command named " ++ name
    ∧ FromOrb aliases name

instance (names aliases : List String) : DecidablePred (Diagnostic.Settled names aliases) :=
  fun diagnostic =>
    decidable_of_iff ((∃ name, diagnostic.message = "Executor " ++ name ++ " is not defined"
          ∧ (name ∈ names ∨ FromOrb aliases name))
        ∨ ∃ name, diagnostic.message = "Cannot find a definition for command named " ++ name ++ ""
          ∧ FromOrb aliases name) <| by
      simp only [String.append_empty, Diagnostic.Settled]

theorem Finding.remains_iff (names aliases : List String) (finding : Finding) :
    finding.remains (fun name => decide (name ∈ names ∨ FromOrb aliases name))
        (fun name => decide (FromOrb aliases name)) = true
      ↔ ¬ finding.diagnostic.Settled names aliases := by
  simp only [Diagnostic.Settled, Finding.diagnostic, Cause.message_eq_unknownExecutor_iff,
    Cause.message_eq_unknownCommand_iff, Finding.remains]
  cases finding.cause <;> simp

theorem Check.scalarNode_remains (executors commands : String → Bool) (scopes : Scopes)
    (node : Node) :
    (scalarNode scopes node).filter (Finding.remains executors commands)
      = scalarNode scopes node := by
  unfold scalarNode
  split
  · rw [List.filter_filterMap]
    apply List.filterMap_congr
    intro reference _
    unfold Check.reference
    split <;> rfl
  · rfl

theorem findings_of_extends {executors commands : String → Bool} {document : Document}
    {orbs : NameSet} {external external' : List String}
    (h : ∀ p, (Site.atPosition { document with orbs } external' (.ofDocument document) p).Extends
      (.atPosition document external (.ofDocument document) p) executors commands)
    (tree : SyntaxTree) :
    findings { document with orbs } tree external'
      = (findings document tree external).filter (Finding.remains executors commands) := by
  have hdeclarations : (Check.declarations document).filter (Finding.remains executors commands)
      = Check.declarations document := by
    unfold Check.declarations
    split <;> rfl
  have hcalls : Check.invocations { document with orbs } external'
      = (Check.invocations document external).filter (Finding.remains executors commands) := by
    simp only [Check.invocations, List.filter_flatMap]
    exact List.flatMap_congr fun call _ => Check.invocation_of_extends (h call.range.start) rfl
  have hscalars : (Check.tree document tree).filter (Finding.remains executors commands)
      = Check.tree document tree := by
    simp only [Check.tree, List.filter_flatMap, Check.scalarNode_remains]
  rw [findings, findings, List.filter_append, List.filter_append, hdeclarations, ← hcalls, hscalars]
  rfl

theorem findings_importing (document : Document) (tree : SyntaxTree)
    (external names aliases : List String) :
    findings (document.importing aliases) tree (external ++ names)
      = (findings document tree external).filter
          (Finding.remains (fun name => decide (name ∈ names ∨ FromOrb aliases name))
            (fun name => decide (FromOrb aliases name))) := by
  apply findings_of_extends
  intro p
  exact ⟨fun _ => rfl,
    fun name _ _ => document.knowsExecutor_importing external names aliases name,
    fun name _ => document.knowsCommand_importing aliases name⟩

theorem findings_eq_of_external_eq (document : Document) (tree : SyntaxTree)
    {external others : List String} (h : ∀ name, name ∈ others ↔ name ∈ external) :
    findings document tree others = findings document tree external := by
  have hknows : ∀ name,
      document.knowsExecutor others name = (document.knowsExecutor external name || false) := by
    intro name
    rw [Bool.or_false, Bool.eq_iff_iff, Document.knowsExecutor_iff, Document.knowsExecutor_iff]
    simp only [Document.ProvidesExecutor, h]
  have hextends : ∀ p, (Site.atPosition document others (.ofDocument document) p).Extends
      (.atPosition document external (.ofDocument document) p) (fun _ => false)
      (fun _ => false) := by
    intro p
    exact ⟨fun _ => rfl, fun name _ _ => hknows name, fun name _ => (Bool.or_false _).symm⟩
  have hfindings := findings_of_extends hextends tree
  rwa [filter_remains_none] at hfindings

/-- **Providing more names.** Importing the orbs `aliases` as well and providing the executors
    `names` as well takes from a report exactly the complaints about executors and commands that are
    provided now; all others stay, in their order. So only the set of external executors matters,
    and importing an orb under an alias with a slash in it changes nothing. -/
theorem analyze_importing (document : Document) (tree : SyntaxTree)
    (external names aliases : List String) :
    (analyze (document.importing aliases) tree (external ++ names)).diagnostics
      = (analyze document tree external).diagnostics.filter
          (fun diagnostic => ¬ diagnostic.Settled names aliases)
    ∧ (∀ others : List String, (∀ name, name ∈ others ↔ name ∈ external) →
        analyze document tree others = analyze document tree external)
    ∧ (∀ orb : String, '/' ∈ orb.toList →
        analyze (document.importing [orb]) tree external = analyze document tree external) := by
  refine ⟨?_, ?_, ?_⟩
  · simp only [analyze, Report.ofFindings, findings_importing, List.filter_map]
    congr 1
    apply List.filter_congr
    intro finding _
    rw [Bool.eq_iff_iff, Finding.remains_iff]
    simp
  · intro others hothers
    rw [analyze, analyze, findings_eq_of_external_eq document tree hothers]
  · intro orb hslash
    have hnone : ∀ name, ¬ FromOrb [orb] name := by
      rintro name ⟨other, hother, hno, -⟩
      exact hno (List.mem_singleton.1 hother ▸ hslash)
    have hfindings := findings_importing document tree external [] [orb]
    simp only [hnone, List.not_mem_nil, or_self, decide_false, List.append_nil,
      filter_remains_none] at hfindings
    rw [analyze, analyze, hfindings]

end PipelineLint
