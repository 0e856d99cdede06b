import PipelineLint.Proofs.Provision

set_option autoImplicit false

/-! # How often and where a value is reported

A value is reported once at most, and as a whole (`Value.Reported`): only an unknown executor that
is named in a map (`Value.NamesUnknown`) is reported at its name. All these reports are errors. Each
of the checks of a value has this shape (`Check.ReportsOnce`), except the check of a list of steps,
which reports every step that may not stand there (`Document.Offends`) at the step's own place.

What a check finds is put at the end of a report, so the report it is added to stays as it is
(`value_reported_once`). -/

namespace PipelineLint

/-! ## Steps that may not stand in a list -/

/-- Whether a value may not stand in a list of steps: it is a truth value, a number, or the name of
    a command that nobody provides. -/
inductive Document.Offends (document : Document) (step : Value) : Prop where
  | boolean {flag : Bool} (hstep : step.payload = .boolean flag)
  | integer {number : Int64} (hstep : step.payload = .integer number)
  | command {command : String} (hstep : step.payload = .string command)
      (hliteral : ¬ Text.HoldsPair '<' command.toList)
      (hunknown : ¬ document.ProvidesCommand command)

namespace Check

/-- A step that offends is reported once, at its own place, and no other step is reported. -/
theorem step_cases (document : Document) (declared : Parameter) (entity : String) (item : Value) :
    (document.Offends item ∧ ∃ cause : Cause, cause.severity = .error
        ∧ step document declared entity item = [⟨cause, item.range⟩])
      ∨ (¬ document.Offends item ∧ step document declared entity item = []) := by
  unfold step
  cases hitem : item.payload with
  | string command =>
    by_cases hstep : opensSubstitution command.toList || document.knowsCommand command
    · refine Or.inr ⟨?_, if_pos hstep⟩
      rw [Bool.or_eq_true, opensSubstitution_iff, Document.knowsCommand_iff] at hstep
      intro hoffends
      cases hoffends with
      | boolean hother => exact absurd (hother.symm.trans hitem) (by simp)
      | integer hother => exact absurd (hother.symm.trans hitem) (by simp)
      | command hother hliteral hunknown =>
        obtain rfl := Payload.string.inj (hother.symm.trans hitem)
        exact hstep.elim hliteral hunknown
    · refine Or.inl ⟨?_, _, rfl, if_neg hstep⟩
      rw [Bool.or_eq_true, opensSubstitution_iff, Document.knowsCommand_iff, not_or] at hstep
      exact .command hitem hstep.1 hstep.2
  | boolean flag => exact Or.inl ⟨.boolean hitem, _, rfl, rfl⟩
  | integer number => exact Or.inl ⟨.integer hitem, _, rfl, rfl⟩
  | map entries =>
    refine Or.inr ⟨?_, rfl⟩
    rintro (⟨hother⟩ | ⟨hother⟩ | ⟨hother, -, -⟩) <;> simp [hitem] at hother
  | sequence items =>
    refine Or.inr ⟨?_, rfl⟩
    rintro (⟨hother⟩ | ⟨hother⟩ | ⟨hother, -, -⟩) <;> simp [hitem] at hother

end Check

instance (document : Document) : DecidablePred document.Offends := fun item =>
  decidable_of_iff (Check.step document default "" item ≠ []) <| by
    rcases Check.step_cases document default "" item with
      ⟨hoffends, cause, -, hstep⟩ | ⟨hnot, hstep⟩
    · simp [hstep, hoffends]
    · simp [hstep, hnot]

/-- The steps of a list that offend are reported once each, in their order and at their places. -/
theorem Check.range_flatMap_step (document : Document) (declared : Parameter) (entity : String)
    (items : List Value) :
    (items.flatMap (step document declared entity)).map Finding.range
      = (items.filter fun item => document.Offends item).map Value.range := by
  induction items with
  | nil => rfl
  | cons item rest ih =>
    rw [List.flatMap_cons, List.map_append, ih]
    rcases step_cases document declared entity item with
      ⟨hoffends, cause, -, hstep⟩ | ⟨hnot, hstep⟩
    · simp [hstep, hoffends]
    · simp [hstep, hnot]

/-! ## Values that are reported as a whole -/

/-- Whether a value is a map with the name of an executor that nothing provides, in its entry
    `entry`. A name with a substitution in it may turn out to be any executor. -/
inductive Value.NamesUnknown (value : Value) (site : Site) (entry : Value) (name : String) :
    Prop where
  | intro {entries : List (String × Value)} (hvalue : value.payload = .map entries)
      (hlookup : entries.lookup "name" = some entry) (hentry : entry.payload = .string name)
      (hne : name ≠ "") (hliteral : ¬ Text.HoldsPair '<' name.toList)
      (hunknown : ¬ site.document.ProvidesExecutor site.external name)

/-- Where a value can be reported for which error: at the value itself, or at the name in a map if
    the value should be an executor and nothing provides the one of that name. -/
inductive Value.Reported (value : Value) (site : Site) (declared : Parameter) : Finding → Prop where
  | whole {cause : Cause} (herror : cause.severity = .error) :
      Value.Reported value site declared ⟨cause, value.range⟩
  | name {entry : Value} {name : String} (hkind : declared.kind = .executor)
      (hunknown : value.NamesUnknown site entry name) :
      Value.Reported value site declared ⟨.unknownExecutor name, entry.range⟩

namespace Check

/-- Whether there is one finding about a value at most. -/
inductive ReportsOnce (site : Site) (value : Value) (declared : Parameter) :
    List Finding → Prop where
  | silent : ReportsOnce site value declared []
  | once {finding : Finding} (hreported : value.Reported site declared finding) :
      ReportsOnce site value declared [finding]

section

variable {site : Site} {value : Value} {declared : Parameter} {entity : String}

theorem ReportsOnce.ite {cause : Cause} (h : cause.severity = .error) (c : Prop) [Decidable c] :
    ReportsOnce site value declared (if c then [] else [⟨cause, value.range⟩]) := by
  split
  · exact .silent
  · exact .once (.whole h)

theorem ReportsOnce.length_le {findings : List Finding}
    (h : ReportsOnce site value declared findings) : findings.length ≤ 1 := by
  cases h <;> simp

theorem ReportsOnce.reported {findings : List Finding}
    (h : ReportsOnce site value declared findings) {finding : Finding}
    (hmem : finding ∈ findings) : value.Reported site declared finding := by
  cases h with
  | silent => exact absurd hmem List.not_mem_nil
  | once hreported => exact List.mem_singleton.1 hmem ▸ hreported

theorem scalar_reportsOnce :
    ReportsOnce site value declared (scalar value declared entity) :=
  .ite rfl _

theorem enumeration_reportsOnce {allowed : List String} :
    ReportsOnce site value declared (enumeration value declared allowed entity) := by
  unfold enumeration
  split
  · exact .once (.whole rfl)
  · exact .ite rfl _

theorem envVarName_reportsOnce :
    ReportsOnce site value declared (envVarName value declared entity) := by
  unfold envVarName
  split
  · exact .silent
  · exact .silent
  · exact .once (.whole rfl)

theorem forwarded_reportsOnce {reference : Reference} :
    ReportsOnce site value declared (forwarded site reference value declared entity) := by
  unfold forwarded
  split
  · exact .ite rfl _
  · exact .silent

/-- What is left to say about a name is whether it may be reported where it is written, if nothing
    provides the executor. -/
theorem executorName_reportsOnce {name : String} {range : Range}
    (h : name ≠ "" → ¬ Text.HoldsPair '<' name.toList →
      ¬ site.document.ProvidesExecutor site.external name →
      value.Reported site declared ⟨.unknownExecutor name, range⟩) :
    ReportsOnce site value declared (executorName site value name range) := by
  rcases executorName_cases site value name range with
    ⟨-, hfound⟩ | ⟨-, -, hfound⟩ | ⟨hne, hliteral, hunknown, hfound⟩ <;> rw [hfound]
  · exact .once (.whole rfl)
  · exact .silent
  · exact .once (h hne hliteral hunknown)

theorem executor_reportsOnce (hkind : declared.kind = .executor) :
    ReportsOnce site value declared (executor site value declared entity) := by
  unfold executor
  split
  · exact executorName_reportsOnce fun _ _ _ => .whole rfl
  · next entries hvalue =>
    split
    · next name range hentry =>
      obtain ⟨entry, hlookup, hentry⟩ := Option.bind_eq_some_iff.1 hentry
      obtain ⟨text, htext, hpair⟩ := Option.map_eq_some_iff.1 hentry
      obtain ⟨rfl, rfl⟩ := Prod.mk.inj hpair
      refine executorName_reportsOnce fun hne hliteral hunknown => .name hkind ?_
      exact ⟨hvalue, hlookup, Value.text?_eq_some_iff.1 htext, hne, hliteral, hunknown⟩
    · exact .once (.whole rfl)
  · exact .once (.whole rfl)

theorem steps_reportsOnce {document : Document} (htag : value.tag ≠ .sequence) :
    ReportsOnce site value declared (steps document value declared entity) := by
  unfold steps
  split
  · next items hvalue =>
    rw [Value.tag, hvalue] at htag
    exact absurd rfl htag
  · exact .once (.whole rfl)

theorem literal_reportsOnce (h : declared.kind = .steps → value.tag ≠ .sequence) :
    ReportsOnce site value declared (literal site value declared entity) := by
  unfold literal
  split
  · exact scalar_reportsOnce
  · exact scalar_reportsOnce
  · exact scalar_reportsOnce
  · exact enumeration_reportsOnce
  · next htype => exact executor_reportsOnce (congrArg ParamType.kind htype)
  · next htype => exact steps_reportsOnce (h (congrArg ParamType.kind htype))
  · exact envVarName_reportsOnce

/-- A value is reported once at most, if it is no list for a parameter that takes steps. -/
theorem value_reportsOnce (h : declared.kind = .steps → value.tag ≠ .sequence) :
    ReportsOnce site value declared (Check.value site value declared entity) := by
  unfold Check.value
  split
  · exact forwarded_reportsOnce
  · exact literal_reportsOnce h

/-- An unknown executor that is named in a map is reported at its name. -/
theorem value_of_namesUnknown {entry : Value} {name : String} (hkind : declared.kind = .executor)
    (h : value.NamesUnknown site entry name) :
    Check.value site value declared entity = [⟨.unknownExecutor name, entry.range⟩] := by
  obtain ⟨hvalue, hlookup, hentry, hne, hliteral, hunknown⟩ := h
  have htype : declared.type = .executor :=
    ParamType.eq_of_kind_eq hkind fun henum => nomatch hkind.symm.trans henum
  have htext : value.text? = none := by
    simp [Value.text?, hvalue]
  have hcheck : Check.value site value declared entity
      = executorName site value name entry.range := by
    simp [Check.value, htext, literal, htype, executor, hvalue, hlookup,
      Value.text?_eq_some_iff.2 hentry]
  rcases executorName_cases site value name entry.range with
    ⟨hempty, -⟩ | ⟨-, hknown, -⟩ | ⟨-, -, -, hfound⟩
  · exact absurd hempty hne
  · exact absurd hknown (not_or.2 ⟨hliteral, hunknown⟩)
  · exact hcheck.trans hfound

theorem value_of_steps {items : List Value} (hkind : declared.kind = .steps)
    (hvalue : value.payload = .sequence items) :
    Check.value site value declared entity
      = items.flatMap (step site.document declared entity) := by
  have htype : declared.type = .steps :=
    ParamType.eq_of_kind_eq hkind fun henum => nomatch hkind.symm.trans henum
  have htext : value.text? = none := by
    simp [Value.text?, hvalue]
  simp [Check.value, htext, literal, htype, steps, hvalue]

/-- What is found about a value is about the whole of it, or about an item of a list of steps. -/
theorem reported_of_mem_value {finding : Finding}
    (h : finding ∈ Check.value site value declared entity) :
    value.Reported site declared finding
      ∨ ∃ items item cause, value.payload = .sequence items ∧ item ∈ items
        ∧ cause.severity = .error ∧ finding = ⟨cause, item.range⟩ := by
  by_cases hsteps : declared.kind = .steps ∧ ∃ items, value.payload = .sequence items
  · obtain ⟨hkind, items, hvalue⟩ := hsteps
    rw [value_of_steps hkind hvalue] at h
    obtain ⟨item, hitem, hfinding⟩ := List.mem_flatMap.1 h
    rcases step_cases site.document declared entity item with ⟨-, cause, herror, hstep⟩ | ⟨-, hstep⟩
    · rw [hstep, List.mem_singleton] at hfinding
      exact Or.inr ⟨items, item, cause, hvalue, hitem, herror, hfinding⟩
    · rw [hstep] at hfinding
      exact absurd hfinding List.not_mem_nil
  · have honce : ReportsOnce site value declared (Check.value site value declared entity) := by
      apply value_reportsOnce
      intro hkind htag
      apply hsteps
      refine ⟨hkind, ?_⟩
      unfold Value.tag at htag
      cases hvalue : value.payload with
      | sequence items => exact ⟨items, rfl⟩
      | _ => simp [hvalue, Payload.tag] at htag
    exact Or.inl (honce.reported h)

/-- Everything that is found about a value is an error. -/
theorem severity_of_mem_value {finding : Finding}
    (h : finding ∈ Check.value site value declared entity) :
    finding.cause.severity = .error := by
  rcases reported_of_mem_value h with hreported | ⟨items, item, cause, -, -, herror, rfl⟩
  · cases hreported with
    | whole herror => exact herror
    | name _ _ => rfl
  · exact herror

/-- Whether an executor without a name, or one with a substitution in its name, is known does not
    matter. -/
theorem value_eq_of_knowsExecutor_eq {other : Site} (hscopes : other.scopes = site.scopes)
    (hvisible : other.visible = site.visible)
    (hcommands : ∀ name, other.document.knowsCommand name = site.document.knowsCommand name)
    (hexecutors : ∀ name, name ≠ "" → ¬ Text.HoldsPair '<' name.toList →
      other.document.knowsExecutor other.external name
        = site.document.knowsExecutor site.external name) :
    Check.value other value declared entity = Check.value site value declared entity := by
  have hextends : other.Extends site (fun _ => false) (fun _ => false) := by
    refine ⟨fun reference => ?_, fun name hne hliteral => ?_, fun name _ => ?_⟩
    · rw [hscopes, hvisible]
    · exact (hexecutors name hne hliteral).trans (Bool.or_false _).symm
    · exact (hcommands name).trans (Bool.or_false _).symm
  rw [value_of_extends hextends, filter_remains_none]

end

end Check

/-- **A value is reported once and in its place.** A check adds what it finds to the end of a
    report. A list for a parameter that takes steps has one finding for each of its steps that
    offends, in their order and at their places. Any other value has one finding at most. If it
    should be an executor and is a map that names an unknown one, the finding is that this executor
    is unknown, at the entry with the name; in all other cases the finding is at the value itself.
    Nobody asks for an executor without a name or with a substitution in its name: sites that
    disagree only on those have the same findings. -/
theorem value_reported_once (report : Report) (site : Site) (value : Value) (declared : Parameter)
    (entity : String) :
    let findings := Check.value site value declared entity
    (report.checkValue site value declared entity).diagnostics
        = report.diagnostics ++ findings.map Finding.diagnostic
    ∧ (∀ items, declared.kind = .steps → value.payload = .sequence items →
      findings.map Finding.range
        = (items.filter fun item => site.document.Offends item).map Value.range)
    ∧ (¬ (declared.kind = .steps ∧ value.tag = .sequence) → findings.length ≤ 1)
    ∧ (∀ entry name, declared.kind = .executor → value.NamesUnknown site entry name →
      findings = [⟨.unknownExecutor name, entry.range⟩])
    ∧ (¬ (declared.kind = .steps ∧ value.tag = .sequence) →
      ¬ (declared.kind = .executor ∧ ∃ entry name, value.NamesUnknown site entry name) →
      ∀ finding ∈ findings, finding.range = value.range)
    ∧ (∀ finding ∈ findings, finding.cause.severity = .error)
    ∧ (∀ other : Site, other.scopes = site.scopes → other.visible = site.visible →
      (∀ name, other.document.knowsCommand name = site.document.knowsCommand name) →
      (∀ name, name ≠ "" → ¬ Text.HoldsPair '<' name.toList →
        other.document.knowsExecutor other.external name
          = site.document.knowsExecutor site.external name) →
      Check.value other value declared entity = findings) := by
  intro findings
  have honce : ¬ (declared.kind = .steps ∧ value.tag = .sequence) →
      Check.ReportsOnce site value declared findings := by
    intro hsteps
    exact Check.value_reportsOnce fun hkind htag => hsteps ⟨hkind, htag⟩
  refine ⟨report.diagnostics_addFindings findings, ?_, ?_, ?_, ?_, ?_, ?_⟩
  · intro items hkind hvalue
    have hfindings : findings = items.flatMap (Check.step site.document declared entity) :=
      Check.value_of_steps hkind hvalue
    rw [hfindings, Check.range_flatMap_step]
  · intro hsteps
    exact (honce hsteps).length_le
  · intro entry name hkind hunknown
    exact Check.value_of_namesUnknown hkind hunknown
  · intro hsteps hnamed finding hfinding
    cases (honce hsteps).reported hfinding with
    | whole _ => rfl
    | name hkind hunknown => exact absurd ⟨hkind, _, _, hunknown⟩ hnamed
  · intro finding hfinding
    exact Check.severity_of_mem_value hfinding
  · intro other hscopes hvisible hcommands hexecutors
    exact Check.value_eq_of_knowsExecutor_eq hscopes hvisible hcommands hexecutors

/-- Of these steps one names a command that nobody provides, and one is no step. The executor of the
    map is unknown, and is reported at its name after what the report holds already. -/
theorem value_reported_once_unknown :
    let line (number : UInt32) : Range := ⟨⟨number, 0⟩, ⟨number, 20⟩⟩
    let text (name : String) (number : UInt32) : Value :=
      { payload := .string name, range := line number }
    let setup : Definition := { name := "setup", range := line 0 }
    let document : Document := { commands := .ofList [("setup", setup)], orbs := .ofNames ["aws"] }
    let site : Site := .atPosition document [] (.ofDocument document) ⟨9, 0⟩
    let items : List Value :=
      [text "setup" 2, text "unknown" 3, text "aws/install" 4, text "run-<< parameters.more >>" 5,
        { payload := .map [], range := line 6 }, { payload := .boolean false, range := line 7 }]
    let list : Value := { payload := .sequence items, range := line 1 }
    let map : Value := { payload := .map [("name", text "gcp/machine" 9)], range := line 8 }
    let earlier : Report := .ofFindings [⟨.noPipelineParameters, line 0⟩]
    (Check.value site list { name := "steps", type := .steps } "build").map Finding.range
        = [line 3, line 7]
      ∧ earlier.checkValue site map { name := "where", type := .executor } "build"
        = .ofFindings [⟨.noPipelineParameters, line 0⟩,
            ⟨.unknownExecutor "gcp/machine", line 9⟩] := by
  intro line text setup document site items list map earlier
  constructor
  · have hranges : (items.filter fun item => document.Offends item).map Value.range
        = [line 3, line 7] := by decide +kernel
    rw [← hranges]
    exact (value_reported_once earlier site list _ "build").2.1 items rfl rfl
  · obtain ⟨hadded, -, -, hnamed, -⟩ :=
      value_reported_once earlier site map { name := "where", type := .executor } "build"
    have hunknown : ¬ document.ProvidesExecutor [] "gcp/machine" :=
      Document.knowsExecutor_iff.not.1 (by decide +kernel)
    have hfound := hnamed (text "gcp/machine" 9) "gcp/machine" rfl
      ⟨rfl, rfl, rfl, by decide, by decide +kernel, hunknown⟩
    rw [hfound] at hadded
    exact congrArg Report.mk hadded

end PipelineLint
