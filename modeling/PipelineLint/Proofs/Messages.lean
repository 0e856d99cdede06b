import Mathlib.Data.List.Infix
import PipelineLint.Finding

set_option autoImplicit false

/-! # What messages say

A message embeds names that the author of a document chose, so two causes can lead to the same
words: a parameter or an entity may be called `a is required for b`. The words before the first name
are fixed, though, and no opening starts with another one. So a message with an opening of its own
tells its cause (`Cause.message_eq_unknownExecutor_iff` and the lemmas after it). -/

namespace PipelineLint

/-! ## Names inside a message -/

namespace Text

theorem prefix_append {lead : List Char} {text : String} (h : lead <+: text.toList)
    (more : String) : lead <+: (text ++ more).toList := by
  rw [String.toList_append]
  exact h.trans (List.prefix_append _ _)

/-- What stands in a text between a start and an end. -/
def between? (lead trail text : String) : Option String :=
  ((text.toList.dropPrefix? lead.toList).bind (·.dropSuffix? trail.toList)).map String.ofList

theorem between?_eq_some_iff {lead trail text name : String} :
    between? lead trail text = some name ↔ text = lead ++ name ++ trail := by
  simp only [between?, Option.map_eq_some_iff, Option.bind_eq_some_iff,
    List.dropPrefix?_eq_some_iff, List.dropSuffix?_eq_some_iff, beq_iff_eq]
  constructor
  · rintro ⟨_, ⟨_, ⟨_, htext, rfl⟩, _, rfl, rfl⟩, rfl⟩
    rw [← String.toList_inj, htext]
    simp
  · rintro rfl
    exact ⟨name.toList, ⟨_, ⟨_, by simp, rfl⟩, _, rfl, rfl⟩, by simp⟩

/-- A property of what stands between a start and an end can be decided, since only one text can
    stand there. -/
instance decidableBetween (lead trail text : String) (p : String → Prop) [DecidablePred p] :
    Decidable (∃ name, text = lead ++ name ++ trail ∧ p name) :=
  decidable_of_iff (∃ name ∈ between? lead trail text, p name) <| by
    simp only [Option.mem_def, between?_eq_some_iff]

end Text

/-! ## How messages open -/

/-- How the message of a cause opens. -/
inductive Opening where
  | pipelineParameters
  | pipelineParameter
  | enumeration
  | parameter
  | noExecutor
  | executor
  | command
deriving DecidableEq

/-- The words of an opening. -/
def Opening.words : Opening → String
  | pipelineParameters => "Pipeline parameters are declared but empty"
  | pipelineParameter => "Pipeline parameter "
  | enumeration => "Enum parameter "
  | parameter => "Parameter "
  | noExecutor => "Missing executor name"
  | executor => "Executor "
  | command => "Cannot find a definition for command named "

theorem Opening.eq_of_startsWith {a b : Opening} (h : a.words.toList <+: b.words.toList) : a = b := by
  revert h
  cases a <;> cases b <;> decide

namespace Cause

def opening : Cause → Opening
  | noPipelineParameters => .pipelineParameters
  | noAllowedValues _ => .enumeration
  | missingArgument _ _ | undeclaredArgument _ _ | wrongType _ _ _ | notAllowed _ _ _ => .parameter
  | noExecutorName => .noExecutor
  | unknownExecutor _ => .executor
  | unknownCommand _ => .command
  | unresolved .pipeline _ => .pipelineParameter
  | unresolved .localScope _ => .parameter

theorem opening_prefix_message (cause : Cause) :
    cause.opening.words.toList <+: cause.message.toList := by
  have hself (words : String) : words.toList <+: words.toList := List.prefix_rfl
  have hname (words name trail : String) : words.toList <+: (words ++ name ++ trail).toList :=
    Text.prefix_append (Text.prefix_append (hself words) name) trail
  cases cause with
  | noPipelineParameters => exact hself _
  | noAllowedValues parameter => exact hname _ parameter _
  | missingArgument parameter entity => exact Text.prefix_append (hname _ parameter _) entity
  | undeclaredArgument parameter entity => exact Text.prefix_append (hname _ parameter _) entity
  | wrongType parameter expected entity =>
    have hkind := Text.prefix_append (hname "Parameter " parameter " is not of type ") expected.name
    exact Text.prefix_append (Text.prefix_append hkind " for ") entity
  | notAllowed text parameter allowed => exact Text.prefix_append (hname _ text _) parameter
  | noExecutorName => exact hself _
  | unknownExecutor name => exact hname _ name _
  | unknownCommand name => exact Text.prefix_append (hself _) name
  | unresolved qualifier name => cases qualifier <;> exact hname _ name _

theorem opening_eq_of_message_eq {a b : Cause} (h : a.message = b.message) :
    a.opening = b.opening := by
  have hwords := b.opening_prefix_message
  rw [← h] at hwords
  rcases List.prefix_or_prefix_of_prefix a.opening_prefix_message hwords with hab | hba
  · exact Opening.eq_of_startsWith hab
  · exact (Opening.eq_of_startsWith hba).symm

theorem name_eq_of_message_eq {lead name other trail : String}
    (h : lead ++ name ++ trail = lead ++ other ++ trail) : name = other :=
  (String.append_right_inj _).1 ((String.append_left_inj _).1 h)

theorem message_eq_unknownExecutor_iff {cause : Cause} {name : String} :
    cause.message = "Executor " ++ name ++ " is not defined" ↔ cause = .unknownExecutor name := by
  constructor
  · intro h
    have hopening : cause.opening = .executor :=
      opening_eq_of_message_eq (b := .unknownExecutor name) h
    cases cause with
    | unknownExecutor other => rw [name_eq_of_message_eq h]
    | unresolved qualifier other => cases qualifier <;> nomatch hopening
    | _ => nomatch hopening
  · rintro rfl
    rfl

theorem message_eq_unknownCommand_iff {cause : Cause} {name : String} :
    cause.message = "Cannot find a definition for command named " ++ name
      ↔ cause = .unknownCommand name := by
  constructor
  · intro h
    have hopening : cause.opening = .command :=
      opening_eq_of_message_eq (b := .unknownCommand name) h
    cases cause with
    | unknownCommand other => rw [(String.append_right_inj _).1 h]
    | unresolved qualifier other => cases qualifier <;> nomatch hopening
    | _ => nomatch hopening
  · rintro rfl
    rfl

theorem message_eq_unresolved_pipeline_iff {cause : Cause} {name : String} :
    cause.message = "Pipeline parameter " ++ name ++ " is not defined"
      ↔ cause = .unresolved .pipeline name := by
  constructor
  · intro h
    have hopening : cause.opening = .pipelineParameter :=
      opening_eq_of_message_eq (b := .unresolved .pipeline name) h
    cases cause with
    | unresolved qualifier other =>
      cases qualifier with
      | pipeline => rw [name_eq_of_message_eq h]
      | localScope => nomatch hopening
    | _ => nomatch hopening
  · rintro rfl
    rfl

/-- Among complaints about references, the message tells what the reference says. Among all
    complaints it does not: those about arguments open with the same word. -/
theorem message_unresolved_eq_iff {qualifier other : Qualifier} {name name' : String} :
    (unresolved qualifier name).message = (unresolved other name').message
      ↔ qualifier = other ∧ name = name' := by
  constructor
  · intro h
    have hopening := opening_eq_of_message_eq h
    cases qualifier with
    | pipeline =>
      cases other with
      | pipeline => exact ⟨rfl, name_eq_of_message_eq h⟩
      | localScope => nomatch hopening
    | localScope =>
      cases other with
      | pipeline => nomatch hopening
      | localScope => exact ⟨rfl, name_eq_of_message_eq h⟩
  · rintro ⟨rfl, rfl⟩
    rfl

end Cause

end PipelineLint
