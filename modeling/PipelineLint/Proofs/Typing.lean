import PipelineLint.Check.Value
import PipelineLint.Proofs.Innermost
import PipelineLint.Proofs.Substitutions

set_option autoImplicit false

/-! # When a value fits a parameter

The typing rules of values, said without the checks. A string that is nothing but a reference fits
by the kind of the parameter that it names (`Document.Resolves`), if it names one. Every other value
fits by the shape that the type of the parameter asks for (`Fits`). `Check.value` has nothing to
report exactly for the values that the rules allow (`Check.value_eq_nil_iff`). -/

namespace PipelineLint

/-! ## What a reference names -/

/-- Which parameter a reference names at a place: one of the innermost definition comes before one
    of the pipeline. -/
inductive Document.Resolves (document : Document) (p : Position) (reference : Reference)
    (parameter : Parameter) : Prop where
  | pipeline (hqualifier : reference.qualifier = .pipeline)
      (hget : document.pipelineParameters.get? reference.name = some parameter)
  | inner {inner : Entity} (hqualifier : reference.qualifier = .localScope)
      (hinner : document.IsInnermost p inner)
      (hget : inner.definition.parameters.get? reference.name = some parameter)
  | outer (hqualifier : reference.qualifier = .localScope)
      (hhidden : ∀ inner, document.IsInnermost p inner →
        inner.definition.parameters.get? reference.name = none)
      (hget : document.pipelineParameters.get? reference.name = some parameter)

/-- Whether a reference names a parameter that its place sees. -/
def Document.Knows (document : Document) (p : Position) (reference : Reference) : Prop :=
  document.pipelineParameters.contains reference.name = true
    ∨ (reference.qualifier = .localScope ∧ ∃ inner, document.IsInnermost p inner
      ∧ inner.definition.parameters.contains reference.name = true)

namespace Scopes

theorem resolve?_eq_some_iff {document : Document} {p : Position} {reference : Reference}
    {parameter : Parameter} :
    (ofDocument document).resolve? ((ofDocument document).visibleAt p) reference = some parameter
      ↔ document.Resolves p reference parameter := by
  unfold resolve?
  cases hqualifier : reference.qualifier with
  | pipeline =>
    constructor
    · exact Document.Resolves.pipeline hqualifier
    · rintro (⟨-, hget⟩ | ⟨hlocal, -, -⟩ | ⟨hlocal, -, -⟩)
      · exact hget
      · exact absurd (hqualifier.symm.trans hlocal) (by decide)
      · exact absurd (hqualifier.symm.trans hlocal) (by decide)
  | localScope =>
    rcases innermost?_cases document p with ⟨-, hnone⟩ | ⟨inner, hinner, -⟩
    · simp only [visibleAt_of_not_encloses hnone]
      constructor
      · exact Document.Resolves.outer hqualifier fun inner h => absurd h.encloses (hnone inner)
      · rintro (⟨hpipeline, -⟩ | ⟨-, hinner, -⟩ | ⟨-, -, hget⟩)
        · exact absurd (hqualifier.symm.trans hpipeline) (by decide)
        · exact absurd hinner.encloses (hnone _)
        · exact hget
    · simp only [get?_visibleAt_of_isInnermost hinner, Option.or_eq_some_iff]
      constructor
      · rintro (hget | ⟨hnone, hget⟩)
        · exact Document.Resolves.inner hqualifier hinner hget
        · exact Document.Resolves.outer hqualifier (fun other h => h.unique hinner ▸ hnone) hget
      · rintro (⟨hpipeline, -⟩ | ⟨-, hother, hget⟩ | ⟨-, hhidden, hget⟩)
        · exact absurd (hqualifier.symm.trans hpipeline) (by decide)
        · exact Or.inl (hother.unique hinner ▸ hget)
        · exact Or.inr ⟨hhidden inner hinner, hget⟩

/-- The parameters of the innermost definition may hide those of the pipeline, but a name that is
    known to either of them resolves. -/
theorem exists_resolves_iff {document : Document} {p : Position} {reference : Reference} :
    (∃ parameter, document.Resolves p reference parameter) ↔ document.Knows p reference := by
  constructor
  · rintro ⟨parameter, ⟨-, hget⟩ | ⟨hqualifier, hinner, hget⟩ | ⟨-, -, hget⟩⟩
    · exact Or.inl ((Dict.contains_iff _).2 ⟨parameter, hget⟩)
    · exact Or.inr ⟨hqualifier, _, hinner, (Dict.contains_iff _).2 ⟨parameter, hget⟩⟩
    · exact Or.inl ((Dict.contains_iff _).2 ⟨parameter, hget⟩)
  · rintro (hpipeline | ⟨hqualifier, inner, hinner, hlocal⟩)
    · obtain ⟨parameter, hget⟩ := (Dict.contains_iff _).1 hpipeline
      cases hqualifier : reference.qualifier with
      | pipeline => exact ⟨parameter, .pipeline hqualifier hget⟩
      | localScope =>
        by_cases hhidden : ∀ inner, document.IsInnermost p inner →
            inner.definition.parameters.get? reference.name = none
        · exact ⟨parameter, .outer hqualifier hhidden hget⟩
        · simp only [not_forall] at hhidden
          obtain ⟨inner, hinner, hsome⟩ := hhidden
          obtain ⟨own, hown⟩ := Option.ne_none_iff_exists'.1 hsome
          exact ⟨own, .inner hqualifier hinner hown⟩
    · obtain ⟨parameter, hget⟩ := (Dict.contains_iff _).1 hlocal
      exact ⟨parameter, .inner hqualifier hinner hget⟩

end Scopes

/-! ## Names of executors and commands -/

namespace Document

/-- Whether a name is the alias of an imported orb without a slash, a slash, and something more. -/
def Imports (document : Document) (name : String) : Prop :=
  ∃ orb rest, name.toList = orb ++ '/' :: rest ∧ '/' ∉ orb ∧ rest ≠ []
    ∧ document.orbs.contains (String.ofList orb) = true

/-- Whether something provides an executor with this name. -/
def ProvidesExecutor (document : Document) (external : List String) (name : String) : Prop :=
  document.executors.contains name = true ∨ name ∈ external ∨ document.Imports name

/-- Whether something provides a command with this name. -/
def ProvidesCommand (document : Document) (name : String) : Prop :=
  document.commands.contains name = true ∨ document.Imports name

theorem span_ne_slash_append {orb : List Char} (h : '/' ∉ orb) (rest : List Char) :
    (orb ++ '/' :: rest).span (· != '/') = (orb, '/' :: rest) := by
  have hall : ∀ c ∈ orb, (c != '/') = true := by
    intro c hc
    simpa using ne_of_mem_of_not_mem hc h
  rw [List.span_eq_takeWhile_dropWhile, List.takeWhile_append_of_pos hall,
    List.dropWhile_append_of_pos hall]
  simp

theorem imports_iff {document : Document} {name : String} :
    document.imports name = true ↔ document.Imports name := by
  unfold imports Imports
  by_cases hslash : '/' ∈ name.toList
  · -- both sides cut the name at its first slash
    obtain ⟨orb, rest, hname, horb⟩ := List.eq_append_cons_of_mem hslash
    rw [hname, span_ne_slash_append horb]
    simp only [Bool.and_eq_true, Bool.not_eq_true', List.isEmpty_eq_false_iff]
    constructor
    · rintro ⟨hrest, halias⟩
      exact ⟨orb, rest, rfl, horb, hrest, halias⟩
    · rintro ⟨orb', rest', heq, horb', hrest, halias⟩
      have hspan := congrArg (List.span (· != '/')) heq
      rw [span_ne_slash_append horb, span_ne_slash_append horb', Prod.mk.injEq,
        List.cons.injEq] at hspan
      obtain ⟨rfl, -, rfl⟩ := hspan
      exact ⟨hrest, halias⟩
  · have hall : ∀ c ∈ name.toList, (c != '/') = true := by
      intro c hc
      simpa using ne_of_mem_of_not_mem hc hslash
    have hspan : name.toList.span (· != '/') = (name.toList, []) := by
      rw [List.span_eq_takeWhile_dropWhile, List.takeWhile_eq_self_iff.2 hall,
        List.dropWhile_eq_nil_iff.2 hall]
    rw [hspan]
    constructor
    · intro h
      exact absurd h Bool.false_ne_true
    · rintro ⟨orb, rest, hname, -⟩
      exact absurd (hname ▸ List.mem_append_right orb List.mem_cons_self) hslash

theorem knowsExecutor_iff {document : Document} {external : List String} {name : String} :
    document.knowsExecutor external name = true ↔ document.ProvidesExecutor external name := by
  rw [knowsExecutor, ProvidesExecutor, Bool.or_eq_true, Bool.or_eq_true, imports_iff,
    List.contains_iff_mem, or_assoc]

theorem knowsCommand_iff {document : Document} {name : String} :
    document.knowsCommand name = true ↔ document.ProvidesCommand name := by
  rw [knowsCommand, ProvidesCommand, Bool.or_eq_true, imports_iff, hasCommand]

end Document

/-! ## The typing rules -/

/-- Whether a value gives the name of an executor: as a string, or in a map under `name`. -/
inductive Value.GivesName (value : Value) (name : String) : Prop where
  | string (hvalue : value.payload = .string name)
  | map {entries : List (String × Value)} {entry : Value} (hvalue : value.payload = .map entries)
      (hlookup : entries.lookup "name" = some entry) (hentry : entry.payload = .string name)

/-- Whether a value may stand in a list of steps. Steps that are spelled out are not looked into,
    and a name with a substitution in it may turn out to be any command. -/
inductive Document.IsStep (document : Document) (step : Value) : Prop where
  | substituted {command : String} (hstep : step.payload = .string command)
      (hopens : Text.HoldsPair '<' command.toList)
  | command {command : String} (hstep : step.payload = .string command)
      (hprovided : document.ProvidesCommand command)
  | map {entries : List (String × Value)} (hstep : step.payload = .map entries)
  | sequence {items : List Value} (hstep : step.payload = .sequence items)

/-- Whether a value that is written out has the shape that a parameter type asks for. -/
inductive Fits (document : Document) (external : List String) (value : Value) : ParamType → Prop where
  | string {text : String} (hvalue : value.payload = .string text) : Fits document external value .string
  | boolean {flag : Bool} (hvalue : value.payload = .boolean flag) :
      Fits document external value .boolean
  | integer {number : Int64} (hvalue : value.payload = .integer number) :
      Fits document external value .integer
  | enum {allowed : List String} {text : String} (hvalue : value.payload = .string text)
      (hallowed : text ∈ allowed) : Fits document external value (.enum allowed)
  | executor {name : String} (hname : value.GivesName name) (hne : name ≠ "")
      (hprovided : Text.HoldsPair '<' name.toList ∨ document.ProvidesExecutor external name) :
      Fits document external value .executor
  | steps {items : List Value} (hvalue : value.payload = .sequence items)
      (hitems : ∀ item ∈ items, document.IsStep item) : Fits document external value .steps
  | envVarName {text : String} (hvalue : value.payload = .string text) :
      Fits document external value .envVarName
  | envVarNumber {number : Int64} (hvalue : value.payload = .integer number) :
      Fits document external value .envVarName

/-- Whether a value is nothing but a reference. -/
def Value.IsReference (value : Value) (reference : Reference) : Prop :=
  ∃ text, value.payload = .string text ∧ loneReference? text.toList = some reference

/-- Whether a value is well typed for a declared parameter, where the place `p` of the call sees
    what it sees. -/
inductive WellTyped (document : Document) (external : List String) (p : Position) (value : Value)
    (declared : Parameter) : Prop where
  | reference {reference : Reference} (hvalue : value.IsReference reference)
      (hkind : ∀ parameter, document.Resolves p reference parameter →
        parameter.kind = declared.kind)
  | literal (hvalue : ∀ reference, ¬ value.IsReference reference)
      (hfits : Fits document external value declared.type)

/-! ## What the checks accept -/

theorem Value.text?_eq_some_iff {value : Value} {text : String} :
    value.text? = some text ↔ value.payload = .string text := by
  unfold Value.text?
  split
  · next text' hpayload => rw [hpayload, Option.some.injEq, Payload.string.injEq]
  · next hother =>
    constructor
    · intro h
      exact absurd h (by simp)
    · intro h
      exact absurd h (hother text)

theorem Value.isReference_iff {value : Value} {reference : Reference} :
    (value.text?.bind fun text => loneReference? text.toList) = some reference
      ↔ value.IsReference reference := by
  simp only [Option.bind_eq_some_iff, Value.text?_eq_some_iff, Value.IsReference]

namespace Check

theorem opensSubstitution_iff {text : List Char} :
    opensSubstitution text = true ↔ Text.HoldsPair '<' text := by
  fun_induction opensSubstitution text with
  | case1 rest => simp [Text.holdsPair_cons]
  | case2 c rest hno ih =>
    rw [ih, Text.holdsPair_cons]
    constructor
    · exact Or.inr
    · rintro (⟨rfl, more, rfl⟩ | h)
      · exact absurd rfl (hno more rfl)
      · exact h
  | case3 => simp [Text.not_holdsPair_nil]

theorem ite_singleton_eq_nil_iff {α : Type} {c : Prop} [Decidable c] {a : α} :
    (if c then [] else [a]) = [] ↔ c := by
  split <;> simp_all

section

variable {document : Document} {external : List String} {site : Site} {value : Value}
  {declared : Parameter} {entity : String}

theorem scalar_eq_nil_iff
    (htype : declared.type = .string ∨ declared.type = .boolean ∨ declared.type = .integer) :
    scalar value declared entity = [] ↔ Fits document external value declared.type := by
  rw [scalar, ite_singleton_eq_nil_iff]
  unfold Value.tag Parameter.kind
  -- each of the three types takes one of the five sorts of values
  rcases htype with htype | htype | htype <;> rw [htype]
  · constructor
    · intro hkind
      cases hvalue : value.payload with
      | string text => exact .string hvalue
      | _ => simp [hvalue, Payload.tag, scalarKind?, ParamType.kind] at hkind
    · intro hfits
      cases hfits with
      | string hvalue =>
        rw [hvalue]
        rfl
  · constructor
    · intro hkind
      cases hvalue : value.payload with
      | boolean flag => exact .boolean hvalue
      | _ => simp [hvalue, Payload.tag, scalarKind?, ParamType.kind] at hkind
    · intro hfits
      cases hfits with
      | boolean hvalue =>
        rw [hvalue]
        rfl
  · constructor
    · intro hkind
      cases hvalue : value.payload with
      | integer number => exact .integer hvalue
      | _ => simp [hvalue, Payload.tag, scalarKind?, ParamType.kind] at hkind
    · intro hfits
      cases hfits with
      | integer hvalue =>
        rw [hvalue]
        rfl

theorem enumeration_eq_nil_iff {allowed : List String} :
    enumeration value declared allowed entity = []
      ↔ Fits document external value (.enum allowed) := by
  unfold enumeration
  split
  · next hnone =>
    refine iff_of_false (List.cons_ne_nil _ _) fun hfits => ?_
    cases hfits with
    | enum hvalue _ =>
      rw [Value.text?_eq_some_iff.2 hvalue] at hnone
      exact absurd hnone (by simp)
  · next text htext =>
    rw [ite_singleton_eq_nil_iff, List.contains_iff_mem]
    constructor
    · exact Fits.enum (Value.text?_eq_some_iff.1 htext)
    · intro hfits
      cases hfits with
      | enum hvalue hallowed =>
        rw [Value.text?_eq_some_iff.2 hvalue, Option.some.injEq] at htext
        exact htext ▸ hallowed

/-- A name that is missing is reported at the value, and one that nothing provides where it is
    written. -/
theorem executorName_cases (site : Site) (value : Value) (name : String) (range : Range) :
    (name = "" ∧ executorName site value name range = [⟨.noExecutorName, value.range⟩])
      ∨ (name ≠ "" ∧ (Text.HoldsPair '<' name.toList
          ∨ site.document.ProvidesExecutor site.external name)
        ∧ executorName site value name range = [])
      ∨ (name ≠ "" ∧ ¬ Text.HoldsPair '<' name.toList
        ∧ ¬ site.document.ProvidesExecutor site.external name
        ∧ executorName site value name range = [⟨.unknownExecutor name, range⟩]) := by
  unfold executorName namedExecutor
  by_cases hname : name = ""
  · exact Or.inl ⟨hname, if_pos (String.isEmpty_iff.2 hname)⟩
  rw [if_neg (mt String.isEmpty_iff.1 hname)]
  by_cases hopens : Text.HoldsPair '<' name.toList
  · exact Or.inr (Or.inl ⟨hname, Or.inl hopens, if_pos (opensSubstitution_iff.2 hopens)⟩)
  rw [if_neg (mt opensSubstitution_iff.1 hopens)]
  by_cases hprovided : site.document.ProvidesExecutor site.external name
  · have hknown := Document.knowsExecutor_iff.2 hprovided
    exact Or.inr (Or.inl ⟨hname, Or.inr hprovided, if_pos hknown⟩)
  · have hknown := mt Document.knowsExecutor_iff.1 hprovided
    exact Or.inr (Or.inr ⟨hname, hopens, hprovided, if_neg hknown⟩)

theorem executorName_eq_nil_iff {name : String} {range : Range} :
    executorName site value name range = []
      ↔ name ≠ "" ∧ (Text.HoldsPair '<' name.toList
        ∨ site.document.ProvidesExecutor site.external name) := by
  rcases executorName_cases site value name range with
    ⟨hname, hfound⟩ | ⟨hname, hknown, hfound⟩ | ⟨-, hopens, hprovided, hfound⟩ <;> rw [hfound]
  · exact iff_of_false (List.cons_ne_nil _ _) fun h => h.1 hname
  · exact iff_of_true rfl ⟨hname, hknown⟩
  · exact iff_of_false (List.cons_ne_nil _ _) fun h => h.2.elim hopens hprovided

theorem executor_eq_nil_iff :
    executor site value declared entity = []
      ↔ Fits site.document site.external value .executor := by
  -- a value of another sort gives no name, and a string or a map gives at most one
  have hone : ∀ (name : String) (range : Range), value.GivesName name →
      (∀ other, value.GivesName other → other = name) →
      (executorName site value name range = []
        ↔ Fits site.document site.external value .executor) := by
    intro name range hgives honly
    rw [executorName_eq_nil_iff]
    constructor
    · rintro ⟨hne, hprovided⟩
      exact .executor hgives hne hprovided
    · intro hfits
      cases hfits with
      | executor hname hne hprovided =>
        obtain rfl := honly _ hname
        exact ⟨hne, hprovided⟩
  have hnone : ∀ finding : Finding, (∀ name, ¬ value.GivesName name) →
      ([finding] = [] ↔ Fits site.document site.external value .executor) := by
    intro finding hgives
    refine iff_of_false (List.cons_ne_nil _ _) fun hfits => ?_
    cases hfits with
    | executor hname _ _ => exact hgives _ hname
  unfold executor
  split
  · next name hvalue =>
    refine hone name _ (.string hvalue) ?_
    rintro other (hother | ⟨hother, -, -⟩)
    · exact Payload.string.inj (hother.symm.trans hvalue)
    · exact absurd (hother.symm.trans hvalue) (by simp)
  · next entries hvalue =>
    split
    · next name range hname =>
      obtain ⟨entry, hlookup, hentry⟩ := Option.bind_eq_some_iff.1 hname
      obtain ⟨text, htext, hpair⟩ := Option.map_eq_some_iff.1 hentry
      obtain ⟨rfl, rfl⟩ := Prod.mk.inj hpair
      refine hone _ _ (.map hvalue hlookup (Value.text?_eq_some_iff.1 htext)) ?_
      rintro other (hother | ⟨hother, hlookup', hentry'⟩)
      · exact absurd (hother.symm.trans hvalue) (by simp)
      · obtain rfl := Payload.map.inj (hother.symm.trans hvalue)
        obtain rfl := Option.some.inj (hlookup'.symm.trans hlookup)
        rw [Value.text?_eq_some_iff.2 hentry'] at htext
        exact Option.some.inj htext
    · next hname =>
      refine hnone _ ?_
      rintro other (hother | ⟨hother, hlookup, hentry⟩)
      · exact absurd (hother.symm.trans hvalue) (by simp)
      · obtain rfl := Payload.map.inj (hother.symm.trans hvalue)
        rw [hlookup, Option.bind_some, Value.text?_eq_some_iff.2 hentry] at hname
        exact absurd hname (by simp)
  · next hstring hmap =>
    refine hnone _ ?_
    rintro other (hother | ⟨hother, -, -⟩)
    · exact hstring _ hother
    · exact hmap _ hother

theorem step_eq_nil_iff {item : Value} :
    step document declared entity item = [] ↔ document.IsStep item := by
  unfold step
  split
  · next command hitem =>
    rw [ite_singleton_eq_nil_iff, Bool.or_eq_true, opensSubstitution_iff, Document.knowsCommand_iff]
    constructor
    · rintro (hopens | hprovided)
      · exact .substituted hitem hopens
      · exact .command hitem hprovided
    · rintro (⟨hstep, hopens⟩ | ⟨hstep, hprovided⟩ | ⟨hstep⟩ | ⟨hstep⟩)
      · exact Or.inl (Payload.string.inj (hstep.symm.trans hitem) ▸ hopens)
      · exact Or.inr (Payload.string.inj (hstep.symm.trans hitem) ▸ hprovided)
      · exact absurd (hstep.symm.trans hitem) (by simp)
      · exact absurd (hstep.symm.trans hitem) (by simp)
  · next entries hitem => exact iff_of_true rfl (.map hitem)
  · next items hitem => exact iff_of_true rfl (.sequence hitem)
  · next flag hitem =>
    refine iff_of_false (List.cons_ne_nil _ _) ?_
    rintro (⟨hstep, -⟩ | ⟨hstep, -⟩ | ⟨hstep⟩ | ⟨hstep⟩) <;>
      exact absurd (hstep.symm.trans hitem) (by simp)
  · next number hitem =>
    refine iff_of_false (List.cons_ne_nil _ _) ?_
    rintro (⟨hstep, -⟩ | ⟨hstep, -⟩ | ⟨hstep⟩ | ⟨hstep⟩) <;>
      exact absurd (hstep.symm.trans hitem) (by simp)

theorem steps_eq_nil_iff :
    steps document value declared entity = [] ↔ Fits document external value .steps := by
  unfold steps
  split
  · next items hvalue =>
    rw [List.flatMap_eq_nil_iff]
    constructor
    · intro hitems
      exact .steps hvalue fun item hitem => step_eq_nil_iff.1 (hitems item hitem)
    · intro hfits item hitem
      cases hfits with
      | steps hvalue' hitems =>
        obtain rfl := Payload.sequence.inj (hvalue'.symm.trans hvalue)
        exact step_eq_nil_iff.2 (hitems item hitem)
  · next hother =>
    refine iff_of_false (List.cons_ne_nil _ _) fun hfits => ?_
    cases hfits with
    | steps hvalue _ => exact hother _ hvalue

theorem envVarName_eq_nil_iff :
    envVarName value declared entity = [] ↔ Fits document external value .envVarName := by
  unfold envVarName Value.tag
  cases hvalue : value.payload with
  | string text => exact iff_of_true rfl (.envVarName hvalue)
  | integer number => exact iff_of_true rfl (.envVarNumber hvalue)
  | _ =>
    refine iff_of_false (List.cons_ne_nil _ _) fun hfits => ?_
    cases hfits with
    | envVarName hother => exact absurd (hother.symm.trans hvalue) (by simp)
    | envVarNumber hother => exact absurd (hother.symm.trans hvalue) (by simp)

theorem literal_eq_nil_iff :
    literal site value declared entity = []
      ↔ Fits site.document site.external value declared.type := by
  unfold literal
  split
  · next htype => exact scalar_eq_nil_iff (by simp [htype])
  · next htype => exact scalar_eq_nil_iff (by simp [htype])
  · next htype => exact scalar_eq_nil_iff (by simp [htype])
  · next htype => exact htype ▸ enumeration_eq_nil_iff
  · next htype => exact htype ▸ executor_eq_nil_iff
  · next htype => exact htype ▸ steps_eq_nil_iff
  · next htype => exact htype ▸ envVarName_eq_nil_iff

theorem forwarded_eq_nil_iff {p : Position} {reference : Reference} :
    forwarded (.atPosition document external (.ofDocument document) p) reference value declared
        entity = []
      ↔ ∀ parameter, document.Resolves p reference parameter →
        parameter.kind = declared.kind := by
  simp only [← Scopes.resolve?_eq_some_iff]
  unfold forwarded Site.atPosition
  split
  · next resolved hresolved =>
    rw [ite_singleton_eq_nil_iff]
    constructor
    · intro hkind parameter hparameter
      exact Option.some.inj (hresolved.symm.trans hparameter) ▸ hkind
    · intro hkinds
      exact hkinds resolved hresolved
  · next hnone =>
    refine iff_of_true rfl fun parameter hparameter => ?_
    exact absurd (hnone.symm.trans hparameter) (by simp)

/-- There is nothing to report about a value exactly if it is well typed. -/
theorem value_eq_nil_iff {p : Position} :
    Check.value (.atPosition document external (.ofDocument document) p) value declared entity = []
      ↔ WellTyped document external p value declared := by
  unfold Check.value
  split
  · next reference hreference =>
    have hvalue := Value.isReference_iff.1 hreference
    rw [forwarded_eq_nil_iff]
    constructor
    · exact .reference hvalue
    · rintro (⟨hvalue', hkind⟩ | ⟨hliteral, -⟩)
      · have hsame := hreference.symm.trans (Value.isReference_iff.2 hvalue')
        exact Option.some.inj hsame ▸ hkind
      · exact absurd hvalue (hliteral reference)
  · next hnone =>
    have hvalue : ∀ reference, ¬ value.IsReference reference := by
      intro reference hreference
      exact absurd (hnone.symm.trans (Value.isReference_iff.2 hreference)) (by simp)
    rw [literal_eq_nil_iff]
    constructor
    · exact .literal hvalue
    · rintro (⟨hreference, -⟩ | ⟨-, hfits⟩)
      · exact absurd hreference (hvalue _)
      · exact hfits

end

end Check

end PipelineLint
