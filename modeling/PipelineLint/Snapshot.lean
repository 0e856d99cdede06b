import PipelineLint.Json.Reader
import PipelineLint.Snapshot.Decoding

set_option autoImplicit false

/-! # Snapshots

A snapshot is what the parser of configurations hands over for one file: the source text, the
document and the syntax tree, written as one JSON text. -/

namespace PipelineLint

/-- A parsed configuration file. -/
structure Snapshot where
  source : String := ""
  document : Document
  tree : SyntaxTree
deriving Inhabited

namespace Snapshot

/-- Read a snapshot from a JSON value. -/
def ofJson? : (room : Nat) → Json → Option Snapshot
  | 0, _ => none
  | room + 1, json =>
    match Json.fields? ["source", "document", "tree"] json with
    | some [source, document, tree] => do
      return {
        source := ← Json.orDefault "" Json.string? source
        document := ← Json.required (Document.ofJson? room) document
        tree := ← Json.required (SyntaxTree.ofJson? room) tree }
    | _ => none

/-- Read a snapshot from its text. -/
def parse? (text : String) : Option Snapshot := do
  ofJson? Json.nestingLimit (← Json.parse? text)

end Snapshot

end PipelineLint
