import PipelineLint.Document
import PipelineLint.Reference

set_option autoImplicit false

/-! # Scopes

Which parameters a place of a document sees: those of the whole pipeline, and over them those of
the innermost definition around the place. The definitions are sorted by where they start, wider
ones first, so that the innermost one is the last that contains the place. -/

namespace PipelineLint

/-- Whether one block comes before another: it starts earlier, or at the same place and ends no
    earlier. -/
def Block.startsBefore (a b : Block) : Bool :=
  decide (a.range.start < b.range.start)
    || (a.range.start == b.range.start && decide (b.range.stop ≤ a.range.stop))

/-- The parameters of a document, arranged for looking them up by place. -/
structure Scopes where
  /-- The parameters of the whole pipeline. -/
  pipeline : Dict Parameter
  /-- The blocks of the definitions, later and narrower ones last. -/
  blocks : List Block
deriving Inhabited

namespace Scopes

/-- The scopes of a document. -/
def ofDocument (document : Document) : Scopes where
  pipeline := document.pipelineParameters
  blocks := document.blocks.mergeSort Block.startsBefore

/-- The innermost block around a place. -/
def innermost? (scopes : Scopes) (p : Position) : Option Block :=
  scopes.blocks.reverse.find? (·.range.contains p)

/-- The parameters that a place sees, by name. -/
def visibleAt (scopes : Scopes) (p : Position) : Dict Parameter :=
  match scopes.innermost? p with
  | some block => scopes.pipeline.overlay block.parameters
  | none => scopes.pipeline

/-- The parameter that a reference names, where the parameters `visible` are seen. -/
def resolve? (scopes : Scopes) (visible : Dict Parameter) (reference : Reference) :
    Option Parameter :=
  match reference.qualifier with
  | .pipeline => scopes.pipeline.get? reference.name
  | .localScope => visible.get? reference.name

end Scopes

end PipelineLint
