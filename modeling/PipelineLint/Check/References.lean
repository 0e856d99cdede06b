import PipelineLint.Finding
import PipelineLint.Scopes
import PipelineLint.SyntaxTree

set_option autoImplicit false

/-! # Checking references

Whether every reference in a scalar names a parameter that its place sees. A scalar with a
substitution that is not closed is passed over: whoever parsed the document reports it. -/

namespace PipelineLint.Check

/-- Check one reference in the text of a scalar. -/
def reference (scopes : Scopes) (visible : Dict Parameter) (node : Node) (reference : Reference) :
    Option Finding :=
  match scopes.resolve? visible reference with
  | some _ => none
  | none =>
    some
      { cause := .unresolved reference.qualifier reference.name
        range := node.kind.place node.start reference.range }

/-- Check the references in the text of a scalar. -/
def scalarNode (scopes : Scopes) (node : Node) : List Finding :=
  match references node.text.toList with
  | .ok found => found.filterMap (reference scopes (scopes.visibleAt node.start) node)
  | .error _ => []

/-- Check all references of a tree: those in scalars written in the line, then those in blocks. -/
def tree (document : Document) (tree : SyntaxTree) : List Finding :=
  let scopes := Scopes.ofDocument document
  (tree.nodesOfKind .stringScalar ++ tree.nodesOfKind .blockScalar).flatMap (scalarNode scopes)

end PipelineLint.Check
