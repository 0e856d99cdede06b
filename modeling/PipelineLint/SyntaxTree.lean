import PipelineLint.Position

set_option autoImplicit false

/-! # Syntax trees

The tree that a configuration was parsed into. Only its scalars matter here: their text may refer
to parameters. `SyntaxTree.nodesOfKind` walks the tree with a stack of the nodes still to be
visited, so the depth of a tree is no concern, and meets the nodes in the order in which they stand
in the document.

`NodeKind.place` turns a range inside the text of a scalar into a range of the document. -/

namespace PipelineLint

/-! ## Nodes -/

/-- The sorts of nodes that are told apart. -/
inductive NodeKind where
  /-- A scalar written in the line. -/
  | stringScalar
  /-- A scalar written as an indented block of lines. -/
  | blockScalar
  | mapping
  | sequence
  | other
deriving DecidableEq, Inhabited

namespace NodeKind

/-- The sort that the name of a grammar rule stands for. -/
def ofRule (rule : String) : NodeKind :=
  match rule with
  | "string_scalar" => stringScalar
  | "block_scalar" => blockScalar
  | "block_mapping" | "flow_mapping" | "mapping" => mapping
  | "block_sequence" | "flow_sequence" | "sequence" => sequence
  | _ => other

/-- The name of a sort. -/
def name : NodeKind → String
  | stringScalar => "string_scalar"
  | blockScalar => "block_scalar"
  | mapping => "mapping"
  | sequence => "sequence"
  | other => "other"

/-- The range of the document that a range of a scalar's text covers, for a scalar that starts at
    `start`. Lines count from the scalar's first line. Characters count from the scalar's first
    character if it is written in the line; the lines of a block keep their indentation, so there
    the characters already count from the start of the line. -/
def place (kind : NodeKind) (start : Position) (range : Range) : Range :=
  let indent := if kind = blockScalar then 0 else start.character
  { start := range.start.shift start.line indent, stop := range.stop.shift start.line indent }

end NodeKind

/-- A node of a syntax tree. -/
structure Node where
  kind : NodeKind
  start : Position
  stop : Position
  text : String := ""
  children : List Node := []
deriving Inhabited

/-- A syntax tree. -/
structure SyntaxTree where
  root : Node
deriving Inhabited

/-! ## Walking a tree -/

namespace Node

mutual

/-- The number of nodes from this one down. -/
def size : Node → Nat
  | .mk _ _ _ _ children => 1 + sizeAll children

/-- The number of nodes from these down. -/
def sizeAll : List Node → Nat
  | [] => 0
  | node :: rest => size node + sizeAll rest

end

theorem size_eq (node : Node) : node.size = 1 + sizeAll node.children := by
  cases node; simp [size]

theorem sizeAll_append (nodes others : List Node) :
    sizeAll (nodes ++ others) = sizeAll nodes + sizeAll others := by
  induction nodes with
  | nil => simp [sizeAll]
  | cons node rest ih => simp [sizeAll, ih, Nat.add_assoc]

/-- The nodes from those on the stack down: a node comes before its children, and they come before
    the rest of the stack. -/
def walk : (stack : List Node) → List Node
  | [] => []
  | node :: rest => node :: walk (node.children ++ rest)
termination_by stack => sizeAll stack
decreasing_by
  rw [sizeAll_append, sizeAll, size_eq]
  omega

end Node

/-- The nodes of one sort, in the order of the document. -/
def SyntaxTree.nodesOfKind (tree : SyntaxTree) (kind : NodeKind) : List Node :=
  (Node.walk [tree.root]).filter (·.kind = kind)

end PipelineLint
