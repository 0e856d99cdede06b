import Mathlib.Data.List.Basic
import PipelineLint.Proofs.Soundness

set_option autoImplicit false

/-! # What a call is told

A check of a call goes through the declared parameters and then through the arguments. It finds an
argument under the name written in the declaration, but asks whether an argument is declared under
the name that the declaration is stored under. Where the two names differ, an argument can be
checked several times, or be checked and reported as not declared.

The tasks of a check (`Check.Task`) say what is due for which parameter and argument, and the check
carries out each of them once and in order (`arguments_accounted`). For a definition that declares
its parameters under their own names every argument is the concern of one task. -/

namespace PipelineLint

/-! ## Tasks -/

namespace Check

/-- What there is to do for a call, about a parameter that is stored under a key or about an
    argument. -/
inductive Task where
  /-- Report an enumeration that allows no value. -/
  | noAllowedValues (key : String) (declared : Parameter)
  /-- Check an argument against a parameter. -/
  | check (key : String) (declared : Parameter) (argument : Value)
  /-- Report a parameter that has no argument. -/
  | missing (key : String) (declared : Parameter)
  /-- Report an argument for which nothing is declared. -/
  | undeclared (key : String) (argument : Value)

namespace Task

/-- What comes of a task, for a call of `entity` at `range`. -/
def findings (site : Site) (entity : String) (range : Range) : Task → List Finding
  | noAllowedValues _ declared =>
    [{ cause := .noAllowedValues declared.name, range := declared.range }]
  | check _ declared argument => Check.value site argument declared entity
  | missing _ declared => [{ cause := .missingArgument declared.name entity, range := range }]
  | undeclared key argument =>
    [{ cause := .undeclaredArgument key entity, range := argument.range }]

/-- The name of the argument that a task is about. -/
def argument? : Task → Option String
  | check _ declared _ => some declared.name
  | undeclared key _ => some key
  | noAllowedValues _ _ | missing _ _ => none

/-- The name that the parameter or the argument of a task is stored under. -/
def key : Task → String
  | noAllowedValues key _ | check key _ _ | missing key _ | undeclared key _ => key

/-- Parameters have their turn before arguments. -/
def turn : Task → Nat
  | noAllowedValues _ _ | check _ _ _ | missing _ _ => 0
  | undeclared _ _ => 1

/-- A parameter is looked at before what is supplied for it. -/
def stage : Task → Nat
  | noAllowedValues _ _ => 0
  | check _ _ _ | missing _ _ | undeclared _ _ => 1

/-- Whether one task comes before another: the parameters by their keys, then the arguments by
    theirs. -/
def Precedes (a b : Task) : Prop :=
  a.turn < b.turn ∨ (a.turn = b.turn ∧ (a.key < b.key ∨ (a.key = b.key ∧ a.stage < b.stage)))

theorem Precedes.ne {a b : Task} (h : a.Precedes b) : a ≠ b := by
  intro heq
  subst heq
  rcases h with hturn | ⟨-, hkey | ⟨-, hstage⟩⟩
  · exact Nat.lt_irrefl _ hturn
  · exact String.lt_irrefl _ hkey
  · exact Nat.lt_irrefl _ hstage

/-- Which tasks a call has that supplies `arguments`, where `declared` is asked for. -/
inductive Due (arguments : Dict Value) (declared : Dict Parameter) : Task → Prop where
  | noAllowedValues {key : String} {parameter : Parameter}
      (hkey : declared.get? key = some parameter) (htype : parameter.type = .enum []) :
      Due arguments declared (.noAllowedValues key parameter)
  | check {key : String} {parameter : Parameter} {argument : Value}
      (hkey : declared.get? key = some parameter)
      (hargument : arguments.get? parameter.name = some argument) :
      Due arguments declared (.check key parameter argument)
  | missing {key : String} {parameter : Parameter} (hkey : declared.get? key = some parameter)
      (hargument : arguments.get? parameter.name = none) (hneeded : parameter.optional = false) :
      Due arguments declared (.missing key parameter)
  | undeclared {key : String} {argument : Value} (hargument : arguments.get? key = some argument)
      (hkey : declared.get? key = none) : Due arguments declared (.undeclared key argument)

end Task

/-- The tasks about the parameter of an entry. -/
def parameterTasks (arguments : Dict Value) (entry : String × Parameter) : List Task :=
  (if entry.2.type = .enum [] then [.noAllowedValues entry.1 entry.2] else []) ++
    match arguments.get? entry.2.name with
    | some argument => [.check entry.1 entry.2 argument]
    | none => if entry.2.optional then [] else [.missing entry.1 entry.2]

/-- The task about an argument that nothing is declared for. -/
def argumentTask? (declared : Dict Parameter) (argument : String × Value) : Option Task :=
  if declared.contains argument.1 then none else some (.undeclared argument.1 argument.2)

/-- The tasks of a call. -/
def tasks (arguments : Dict Value) (declared : Dict Parameter) : List Task :=
  declared.entries.flatMap (parameterTasks arguments) ++
    arguments.entries.filterMap (argumentTask? declared)

/-! ## Which tasks there are -/

theorem mem_parameterTasks_iff {arguments : Dict Value} {entry : String × Parameter} {task : Task} :
    task ∈ parameterTasks arguments entry
      ↔ (entry.2.type = .enum [] ∧ task = .noAllowedValues entry.1 entry.2)
        ∨ (∃ argument, arguments.get? entry.2.name = some argument
          ∧ task = .check entry.1 entry.2 argument)
        ∨ (arguments.get? entry.2.name = none ∧ entry.2.optional = false
          ∧ task = .missing entry.1 entry.2) := by
  unfold parameterTasks
  cases arguments.get? entry.2.name with
  | some argument => by_cases htype : entry.2.type = .enum [] <;> simp [htype]
  | none =>
    by_cases htype : entry.2.type = .enum [] <;> cases entry.2.optional <;> simp [htype]

theorem argumentTask?_eq_some_iff {declared : Dict Parameter} {argument : String × Value}
    {task : Task} :
    argumentTask? declared argument = some task
      ↔ declared.get? argument.1 = none ∧ task = .undeclared argument.1 argument.2 := by
  unfold argumentTask? Dict.contains
  cases declared.get? argument.1 <;> simp [eq_comm]

theorem mem_tasks_iff {arguments : Dict Value} {declared : Dict Parameter} {task : Task} :
    task ∈ tasks arguments declared ↔ task.Due arguments declared := by
  simp only [tasks, List.mem_append, List.mem_flatMap, mem_parameterTasks_iff, List.mem_filterMap,
    argumentTask?_eq_some_iff, Prod.exists, ← Dict.get?_eq_some_iff]
  constructor
  · rintro (⟨key, parameter, hkey, ⟨htype, rfl⟩ | ⟨argument, hargument, rfl⟩ |
      ⟨hnone, hneeded, rfl⟩⟩ | ⟨key, argument, hargument, hkey, rfl⟩)
    · exact .noAllowedValues hkey htype
    · exact .check hkey hargument
    · exact .missing hkey hnone hneeded
    · exact .undeclared hargument hkey
  · intro hdue
    cases hdue with
    | noAllowedValues hkey htype => exact Or.inl ⟨_, _, hkey, Or.inl ⟨htype, rfl⟩⟩
    | check hkey hargument => exact Or.inl ⟨_, _, hkey, Or.inr (Or.inl ⟨_, hargument, rfl⟩)⟩
    | missing hkey hnone hneeded =>
      exact Or.inl ⟨_, _, hkey, Or.inr (Or.inr ⟨hnone, hneeded, rfl⟩)⟩
    | undeclared hargument hkey => exact Or.inr ⟨_, _, hargument, hkey, rfl⟩

/-! ## Their order -/

theorem key_of_mem_parameterTasks {arguments : Dict Value} {entry : String × Parameter}
    {task : Task} (h : task ∈ parameterTasks arguments entry) : task.turn = 0 ∧ task.key = entry.1 := by
  rcases mem_parameterTasks_iff.1 h with ⟨-, rfl⟩ | ⟨argument, -, rfl⟩ | ⟨-, -, rfl⟩
  · exact ⟨rfl, rfl⟩
  · exact ⟨rfl, rfl⟩
  · exact ⟨rfl, rfl⟩

theorem pairwise_parameterTasks (arguments : Dict Value) (entry : String × Parameter) :
    (parameterTasks arguments entry).Pairwise Task.Precedes := by
  -- the second half holds one task at most, and only the first one reports an enumeration
  refine List.pairwise_append.2 ⟨?_, ?_, ?_⟩
  · split <;> simp
  · split
    · simp
    · split <;> simp
  · intro first hfirst second hsecond
    have hfirst' : first = .noAllowedValues entry.1 entry.2 := by
      split at hfirst
      · exact List.mem_singleton.1 hfirst
      · exact absurd hfirst List.not_mem_nil
    have hsecond' : second.turn = 0 ∧ second.key = entry.1 ∧ second.stage = 1 := by
      split at hsecond
      · rw [List.mem_singleton.1 hsecond]
        exact ⟨rfl, rfl, rfl⟩
      · split at hsecond
        · exact absurd hsecond List.not_mem_nil
        · rw [List.mem_singleton.1 hsecond]
          exact ⟨rfl, rfl, rfl⟩
    obtain ⟨hturn, hkey, hstage⟩ := hsecond'
    subst hfirst'
    exact Or.inr ⟨hturn.symm, Or.inr ⟨hkey.symm, hstage.symm ▸ Nat.zero_lt_one⟩⟩

theorem pairwise_tasks (arguments : Dict Value) (declared : Dict Parameter) :
    (tasks arguments declared).Pairwise Task.Precedes := by
  refine List.pairwise_append.2 ⟨List.pairwise_flatMap.2 ⟨?_, ?_⟩, List.pairwise_filterMap.2 ?_, ?_⟩
  · intro entry _
    exact pairwise_parameterTasks arguments entry
  · apply declared.sorted.imp
    intro a b hkeys first hfirst second hsecond
    obtain ⟨hturn, hkey⟩ := key_of_mem_parameterTasks hfirst
    obtain ⟨hturn', hkey'⟩ := key_of_mem_parameterTasks hsecond
    exact Or.inr ⟨hturn.trans hturn'.symm, Or.inl (by rw [hkey, hkey']; exact hkeys)⟩
  · apply arguments.sorted.imp
    intro a b hkeys first hfirst second hsecond
    obtain ⟨-, rfl⟩ := argumentTask?_eq_some_iff.1 hfirst
    obtain ⟨-, rfl⟩ := argumentTask?_eq_some_iff.1 hsecond
    exact Or.inr ⟨rfl, Or.inl hkeys⟩
  · intro first hfirst second hsecond
    obtain ⟨entry, -, hfirst⟩ := List.mem_flatMap.1 hfirst
    obtain ⟨argument, -, hsecond⟩ := List.mem_filterMap.1 hsecond
    obtain ⟨-, rfl⟩ := argumentTask?_eq_some_iff.1 hsecond
    exact Or.inl ((key_of_mem_parameterTasks hfirst).1 ▸ Nat.zero_lt_one)

/-! ## What comes of them -/

theorem parameter_eq_flatMap_tasks (site : Site) (arguments : Dict Value) (entity : String)
    (range : Range) (entry : String × Parameter) :
    parameter site arguments entity range entry.2
      = (parameterTasks arguments entry).flatMap (Task.findings site entity range) := by
  have hallowed : allowedValues entry.2
      = (if entry.2.type = .enum [] then [Task.noAllowedValues entry.1 entry.2] else []).flatMap
          (Task.findings site entity range) := by
    by_cases htype : entry.2.type = .enum []
    · simp [allowedValues, Parameter.allowed?, ParamType.allowed?, htype, Task.findings]
    · simp [allowedValues_eq_nil_iff.2 htype, htype]
  rw [parameter, parameterTasks, List.flatMap_append, hallowed]
  congr 1
  cases arguments.get? entry.2.name with
  | some argument => simp [Task.findings]
  | none => cases entry.2.optional <;> simp [Task.findings]

/-- A check of a call carries out its tasks. -/
theorem arguments_eq_flatMap_tasks (site : Site) (supplied : Dict Value) (entity : String)
    (range : Range) (declared : Dict Parameter) :
    arguments site supplied entity range declared
      = (tasks supplied declared).flatMap (Task.findings site entity range) := by
  rw [arguments, tasks, List.flatMap_append, List.flatMap_assoc, Dict.values, List.flatMap_map,
    List.filterMap_eq_flatMap_toList, List.filterMap_eq_flatMap_toList, List.flatMap_assoc]
  congr 1
  · apply List.flatMap_congr
    intro entry _
    exact parameter_eq_flatMap_tasks site supplied entity range entry
  · apply List.flatMap_congr
    intro argument _
    unfold argumentTask?
    split <;> simp [Task.findings]

end Check

/-! ## The tasks about one argument -/

theorem Entries.filter_fst_eq {α : Type} {entries : List (String × α)} (h : Sorted entries)
    (name : String) :
    entries.filter (fun entry => entry.1 = name)
      = ((entries.lookup name).map fun value => (name, value)).toList := by
  induction entries with
  | nil => rfl
  | cons first rest ih =>
    obtain ⟨hfirst, hrest⟩ := List.pairwise_cons.1 h
    rw [lookup_cons_eq_ite]
    by_cases hname : name = first.1
    · subst hname
      have hnone : rest.lookup first.1 = none := lookup_eq_none_of_lt hfirst
      simp [ih hrest, hnone]
    · simp [ih hrest, hname, Ne.symm hname]

namespace Check

theorem filter_parameterTasks {arguments : Dict Value} {name : String} {argument : Value}
    (hargument : arguments.get? name = some argument) (entry : String × Parameter) :
    (parameterTasks arguments entry).filter (·.argument? = some name)
      = if entry.2.name = name then [.check entry.1 entry.2 argument] else [] := by
  have hallowed : (if entry.2.type = .enum [] then [Task.noAllowedValues entry.1 entry.2]
      else []).filter (·.argument? = some name) = [] := by
    split <;> simp [Task.argument?]
  rw [parameterTasks, List.filter_append, hallowed, List.nil_append]
  by_cases hname : entry.2.name = name
  · simp [hname, hargument, Task.argument?]
  · cases arguments.get? entry.2.name with
    | some other => simp [hname, Task.argument?]
    | none => cases entry.2.optional <;> simp [hname, Task.argument?]

theorem flatMap_ite_singleton {α β : Type} (p : α → Prop) [DecidablePred p] (f : α → β)
    (l : List α) : l.flatMap (fun a => if p a then [f a] else []) = (l.filter p).map f := by
  induction l with
  | nil => rfl
  | cons a rest ih => by_cases h : p a <;> simp [ih, h]

/-- An argument is checked against every parameter that is called as it is, and reported if it is
    not declared. -/
theorem filter_tasks {arguments : Dict Value} {name : String} {argument : Value}
    (hargument : arguments.get? name = some argument) (declared : Dict Parameter) :
    (tasks arguments declared).filter (·.argument? = some name)
      = (declared.entries.filter (·.2.name = name)).map
            (fun entry => .check entry.1 entry.2 argument)
          ++ if declared.contains name then [] else [.undeclared name argument] := by
  have hundeclared : (arguments.entries.filterMap (argumentTask? declared)).filter
      (·.argument? = some name) = (argumentTask? declared (name, argument)).toList := by
    have hpick : ∀ entry ∈ arguments.entries,
        (argumentTask? declared entry).filter (fun task => decide (task.argument? = some name))
          = if decide (entry.1 = name) then argumentTask? declared entry else none := by
      intro entry _
      unfold argumentTask?
      by_cases hname : entry.1 = name <;> split <;> simp [hname, Task.argument?]
    have hentry : arguments.entries.filter (fun entry => entry.1 = name) = [(name, argument)] := by
      rw [Entries.filter_fst_eq arguments.sorted name,
        show arguments.entries.lookup name = some argument from hargument]
      rfl
    rw [List.filter_filterMap, List.filterMap_congr hpick, ← List.filterMap_filter, hentry]
    cases h : argumentTask? declared (name, argument) <;> simp [h]
  have hdeclared : (declared.entries.flatMap (parameterTasks arguments)).filter
      (·.argument? = some name)
      = (declared.entries.filter (·.2.name = name)).map
          (fun entry => Task.check entry.1 entry.2 argument) := by
    simp only [List.filter_flatMap, filter_parameterTasks hargument]
    exact flatMap_ite_singleton _ _ _
  rw [tasks, List.filter_append, hdeclared, hundeclared, argumentTask?]
  split <;> rfl

end Check

/-! ## Parameters under their own names -/

/-- Of the parameters that are declared one after the other the last one of a name counts. -/
theorem Definition.get?_foldl_withParameter (definition : Definition) (parameters : List Parameter)
    (name : String) :
    (parameters.foldl withParameter definition).parameters.get? name
      = (parameters.findRev? (·.name = name)).or (definition.parameters.get? name) := by
  induction parameters generalizing definition with
  | nil => rfl
  | cons parameter rest ih =>
    have hstep : (definition.withParameter parameter).parameters.get? name
        = if name = parameter.name then some parameter else definition.parameters.get? name :=
      Dict.get?_insert _ _ _ _
    rw [List.foldl_cons, ih, hstep, List.findRev?]
    cases rest.findRev? (·.name = name) with
    | some later => rfl
    | none => by_cases hname : parameter.name = name <;> simp [hname, Ne.symm]

/-- If every parameter is stored under its own name, the parameters with a name are the one that is
    stored there. -/
theorem Dict.filter_name_eq {declared : Dict Parameter}
    (h : ∀ key parameter, declared.get? key = some parameter → parameter.name = key)
    (name : String) :
    declared.entries.filter (·.2.name = name)
      = ((declared.get? name).map fun parameter => (name, parameter)).toList := by
  rw [Dict.get?, ← Entries.filter_fst_eq declared.sorted name]
  apply List.filter_congr
  intro entry hentry
  rw [h entry.1 entry.2 (declared.get?_eq_some_iff.2 hentry)]

theorem Check.filter_tasks_of_built {arguments : Dict Value} {name : String} {argument : Value}
    (hargument : arguments.get? name = some argument) (entity : String) (range : Range)
    (parameters : List Parameter) :
    (tasks arguments
          (parameters.foldl Definition.withParameter ⟨entity, range, .empty⟩).parameters).filter
        (·.argument? = some name)
      = [match parameters.findRev? (·.name = name) with
        | some parameter => .check name parameter argument
        | none => .undeclared name argument] := by
  have hget : ∀ key,
      (parameters.foldl Definition.withParameter ⟨entity, range, .empty⟩).parameters.get? key
        = parameters.findRev? (·.name = key) := by
    intro key
    rw [Definition.get?_foldl_withParameter, Dict.get?_empty, Option.or_none]
  have hnames : ∀ key parameter,
      (parameters.foldl Definition.withParameter ⟨entity, range, .empty⟩).parameters.get? key
        = some parameter → parameter.name = key := by
    intro key parameter hparameter
    rw [hget, List.findRev?_eq_find?_reverse] at hparameter
    simpa using List.find?_some hparameter
  rw [filter_tasks hargument, Dict.filter_name_eq hnames, Dict.contains, hget]
  cases parameters.findRev? (·.name = name) <;> rfl

/-- **Every argument is accounted for.** A check of a call carries out the tasks that are due, each
    of them once: those about parameters by their keys, then those about arguments by theirs. So an
    argument is checked against every parameter that is called as it is, and reported as not
    declared exactly if no parameter is stored under its name. If the parameters were declared one
    after the other under their own names, one task is about each argument: it is checked against
    the last parameter of its name, or reported if there is none. -/
theorem arguments_accounted (site : Site) (arguments : Dict Value) (entity : String) (range : Range)
    (declared : Dict Parameter) :
    let tasks := Check.tasks arguments declared
    Check.arguments site arguments entity range declared
        = tasks.flatMap (Check.Task.findings site entity range)
    ∧ (∀ task, task ∈ tasks ↔ task.Due arguments declared)
    ∧ tasks.Pairwise Check.Task.Precedes ∧ tasks.Nodup
    ∧ (∀ name argument, arguments.get? name = some argument →
      tasks.filter (·.argument? = some name)
        = (declared.entries.filter (·.2.name = name)).map
              (fun entry => .check entry.1 entry.2 argument)
            ++ if declared.contains name then [] else [.undeclared name argument])
    ∧ (∀ (built : String) (place : Range) (parameters : List Parameter),
      declared = (parameters.foldl Definition.withParameter ⟨built, place, .empty⟩).parameters →
      ∀ name argument, arguments.get? name = some argument →
        tasks.filter (·.argument? = some name)
          = [match parameters.findRev? (·.name = name) with
            | some parameter => .check name parameter argument
            | none => .undeclared name argument]) := by
  intro tasks
  refine ⟨?_, ?_, ?_, ?_, ?_, ?_⟩
  · exact Check.arguments_eq_flatMap_tasks site arguments entity range declared
  · intro task
    exact Check.mem_tasks_iff
  · exact Check.pairwise_tasks arguments declared
  · exact (Check.pairwise_tasks arguments declared).imp Check.Task.Precedes.ne
  · intro name argument hargument
    exact Check.filter_tasks hargument declared
  · intro built place parameters hbuilt name argument hargument
    subst hbuilt
    exact Check.filter_tasks_of_built hargument built place parameters

/-- A parameter is declared again, with another type. Its argument is checked against the later
    declaration only, and the other argument is reported. -/
theorem arguments_accounted_redeclared :
    let flag : Parameter := { name := "to", type := .boolean }
    let text : Parameter := { name := "to", type := .string }
    let greet := [flag, text].foldl Definition.withParameter ⟨"greet", {}, .empty⟩
    let argument : Value := { payload := .string "all", range := ⟨⟨7, 4⟩, ⟨7, 9⟩⟩ }
    let tasks := Check.tasks (.ofList [("to", argument), ("from", argument)]) greet.parameters
    tasks.filter (·.argument? = some "to") = [.check "to" text argument]
      ∧ tasks.filter (·.argument? = some "from") = [.undeclared "from" argument] := by
  intro flag text greet argument tasks
  have hget : ∀ name, (Dict.ofList [("to", argument), ("from", argument)]).get? name
      = if name = "from" ∨ name = "to" then some argument else none := by
    intro name
    rw [Dict.get?_ofList]
    by_cases hfrom : name = "from" <;> by_cases hto : name = "to" <;>
      simp [Entries.lookup_cons_eq_ite, hfrom, hto]
  obtain ⟨-, -, -, -, -, hbuilt⟩ :=
    arguments_accounted default (.ofList [("to", argument), ("from", argument)]) "greet" {}
      greet.parameters
  have htasks := hbuilt "greet" {} [flag, text] rfl
  exact ⟨htasks "to" argument (by rw [hget]; rfl), htasks "from" argument (by rw [hget]; rfl)⟩

end PipelineLint
