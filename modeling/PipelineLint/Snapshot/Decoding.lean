import PipelineLint.Document
import PipelineLint.Json.Decoder
import PipelineLint.SyntaxTree

set_option autoImplicit false

/-! # Documents and syntax trees from JSON

How each part of a document and of a syntax tree is read from a JSON value. Every reader gets the
number of arrays and objects that may be entered from here on; a value that needs more is refused.

All records follow the common rules, with one exception: the declaration of a parameter has to be
an object, and its further members must be sound even though nothing is read from them. -/

namespace PipelineLint

open Json (fields? required orDefault)

/-! ## Places -/

/-- Read a position. -/
def Position.ofJson? : (room : Nat) → Json → Option Position
  | 0, _ => none
  | _ + 1, json =>
    match fields? ["line", "character"] json with
    | some [line, character] => do
      return { line := ← required Json.uint32? line, character := ← required Json.uint32? character }
    | _ => none

/-- Read a range. -/
def Range.ofJson? : (room : Nat) → Json → Option Range
  | 0, _ => none
  | room + 1, json =>
    match fields? ["start", "end"] json with
    | some [start, stop] => do
      return {
        start := ← required (Position.ofJson? room) start
        stop := ← required (Position.ofJson? room) stop }
    | _ => none

/-! ## Lists and dictionaries -/

/-- Read a list of strings. -/
def Json.strings? : (room : Nat) → Json → Option (List String)
  | 0, _ => none
  | _ + 1, json => json.items?.bind (List.mapM Json.string?)

/-- Read the members of an object with a reader for their values. -/
def Json.entries? {α : Type} (read : (room : Nat) → Json → Option α) :
    (room : Nat) → Json → Option (List (String × α))
  | 0, _ => none
  | room + 1, json =>
    json.members?.bind (List.mapM fun member => do return (member.1, ← read room member.2))

/-- Read a dictionary with a reader for its values. Of several members with one name the last one
    counts. -/
def Dict.ofJson? {α : Type} (read : (room : Nat) → Json → Option α) (room : Nat) (json : Json) :
    Option (Dict α) :=
  (json.entries? read room).map Dict.ofList

/-! ## Parameters -/

/-- Read the kind of a parameter: its name or its number. -/
def ParamKind.ofJson? : Json → Option ParamKind
  | .string name => ofName? name
  | .integer n => if 0 ≤ n then all[n.toNat]? else none
  | _ => none

/-- Read the values that a parameter allows from its declaration. -/
def ParamKind.allowedOfMembers? (kind : ParamKind) (room : Nat) (members : List (String × Json)) :
    Option (List String) :=
  if kind = .enum then do orDefault [] (Json.strings? room) (← Json.field? members "enum")
  else some []

/-- Read the declaration of a parameter. -/
def Parameter.ofJson? : (room : Nat) → Json → Option Parameter
  | room + 1, .object members => do
    let name ← required Json.string? (← Json.field? members "name")
    let isOptional ← orDefault false Json.bool? (← Json.field? members "optional")
    let range ← orDefault {} (Range.ofJson? room) (← Json.field? members "range")
    let others := members.filter fun member =>
      !(["name", "optional", "range"].contains member.1)
    guard (others.all fun member => member.2.isSound room)
    let kind ← required ParamKind.ofJson? (← Json.field? members "type")
    let allowed ← kind.allowedOfMembers? room members
    return { name, type := .ofKind allowed kind, optional := isOptional, range }
  | _, _ => none

/-! ## Values -/

mutual

/-- Read a value. -/
def Value.ofJson? : (room : Nat) → Json → Option Value
  | 0, _ => none
  | room + 1, json =>
    match fields? ["name", "value", "range"] json with
    | some [name, payload, range] => do
      return {
        name := ← orDefault "" Json.string? name
        payload := ← required (Payload.ofJson? room) payload
        range := ← required (Range.ofJson? room) range }
    | _ => none

/-- Read the content of a value: an object with one member, whose name is the sort of content. -/
def Payload.ofJson? : (room : Nat) → Json → Option (Payload Value)
  | _ + 1, .object [("string", content)] => .string <$> content.string?
  | _ + 1, .object [("boolean", content)] => .boolean <$> content.bool?
  | _ + 1, .object [("integer", content)] => .integer <$> content.int64?
  | room + 1, .object [("map", content)] => .map <$> Payload.entriesOfJson? room content
  | room + 1, .object [("sequence", content)] => .sequence <$> Payload.itemsOfJson? room content
  | _, _ => none

/-- Read the entries of a map. -/
def Payload.entriesOfJson? : (room : Nat) → Json → Option (List (String × Value))
  | room + 1, .object members => do
    let entries ← members.mapM fun member => do
      return (member.1, ← Value.ofJson? room member.2)
    return (Dict.ofList entries).entries
  | _, _ => none

/-- Read the items of a sequence. -/
def Payload.itemsOfJson? : (room : Nat) → Json → Option (List Value)
  | room + 1, .array items => items.mapM (Value.ofJson? room)
  | _, _ => none

end

/-! ## Definitions, calls and documents -/

/-- Read a definition. -/
def Definition.ofJson? : (room : Nat) → Json → Option Definition
  | 0, _ => none
  | room + 1, json =>
    match fields? ["name", "range", "parameters"] json with
    | some [name, range, parameters] => do
      return {
        name := ← required Json.string? name
        range := ← required (Range.ofJson? room) range
        parameters := ← orDefault .empty (Dict.ofJson? Parameter.ofJson? room) parameters }
    | _ => none

/-- Read a sort of entity: its name, or an object with its name and `null`. -/
def EntityKind.ofJson? : (room : Nat) → Json → Option EntityKind
  | _, .string name => ofName? name
  | _ + 1, .object [(name, .null)] => ofName? name
  | _, _ => none

/-- Read a call. -/
def Invocation.ofJson? : (room : Nat) → Json → Option Invocation
  | 0, _ => none
  | room + 1, json =>
    match fields? ["entity", "target", "range", "arguments"] json with
    | some [entity, target, range, arguments] => do
      return {
        entity := ← required Json.string? entity
        target := ← required (EntityKind.ofJson? room) target
        range := ← required (Range.ofJson? room) range
        arguments := ← orDefault .empty (Dict.ofJson? Value.ofJson? room) arguments }
    | _ => none

/-- Read a list of calls. -/
def Invocation.listOfJson? : (room : Nat) → Json → Option (List Invocation)
  | 0, _ => none
  | room + 1, json => json.items?.bind (List.mapM (Invocation.ofJson? room))

/-- The names of the fields of a document, in their order. -/
def Document.fieldNames : List String :=
  ["file", "pipeline_parameters", "pipeline_parameters_range", "commands", "jobs", "executors",
   "orbs", "invocations"]

/-- Read a document. -/
def Document.ofJson? : (room : Nat) → Json → Option Document
  | 0, _ => none
  | room + 1, json =>
    match fields? fieldNames json with
    | some [file, parameters, range, commands, jobs, executors, orbs, invocations] => do
      return {
        file := ← orDefault "" Json.string? file
        pipelineParameters := ← orDefault .empty (Dict.ofJson? Parameter.ofJson? room) parameters
        pipelineRange := ← orDefault {} (Range.ofJson? room) range
        commands := ← orDefault .empty (Dict.ofJson? Definition.ofJson? room) commands
        jobs := ← orDefault .empty (Dict.ofJson? Definition.ofJson? room) jobs
        executors := ← orDefault .empty (Dict.ofJson? Definition.ofJson? room) executors
        orbs := .ofNames (← orDefault [] (Json.strings? room) orbs)
        invocations := ← orDefault [] (Invocation.listOfJson? room) invocations }
    | _ => none

/-! ## Syntax trees -/

mutual

/-- Read a node. -/
def Node.ofJson? : (room : Nat) → Json → Option Node
  | 0, _ => none
  | room + 1, json =>
    match fields? ["kind", "start", "end", "text", "children"] json with
    | some [kind, start, stop, text, children] => do
      return {
        kind := .ofRule (← required Json.string? kind)
        start := ← required (Position.ofJson? room) start
        stop := ← required (Position.ofJson? room) stop
        text := ← orDefault "" Json.string? text
        children := ← orDefault [] (Node.listOfJson? room) children }
    | _ => none

/-- Read a list of nodes. -/
def Node.listOfJson? : (room : Nat) → Json → Option (List Node)
  | room + 1, .array items => items.mapM (Node.ofJson? room)
  | _, _ => none

end

/-- Read a syntax tree. -/
def SyntaxTree.ofJson? : (room : Nat) → Json → Option SyntaxTree
  | 0, _ => none
  | room + 1, json =>
    match fields? ["root"] json with
    | some [root] => do return { root := ← required (Node.ofJson? room) root }
    | _ => none

end PipelineLint
