import PipelineLint.Position
import PipelineLint.Text.Blank

set_option autoImplicit false

/-! # Parameter references

A scalar may hold substitutions, each written between `<<` and `>>`. A substitution whose body,
without the blanks around it, is `pipeline.parameters.NAME` or `parameters.NAME` refers to a
parameter; any other substitution is left alone. `references` lists the references of a text in
order with the ranges of their substitutions, and `loneReference?` recognises a text that is
nothing but one reference.

An opening `<<` takes the first `>>` after it. Without one the whole text is malformed. -/

namespace PipelineLint

/-! ## What a reference is -/

/-- Which parameters a reference can name. -/
inductive Qualifier where
  /-- Only the parameters of the whole document. -/
  | pipeline
  /-- Those that are visible where the reference stands. -/
  | localScope
deriving DecidableEq, Inhabited

/-- A reference to a parameter inside a text. -/
structure Reference where
  /-- The name of the parameter. -/
  name : String
  /-- The dotted path as it is written, such as `pipeline.parameters.tag`. -/
  path : String
  qualifier : Qualifier
  /-- The range of the substitution, from its `<<` to just after its `>>`. -/
  range : Range
deriving DecidableEq, Inhabited

/-- A `<<` without a `>>` after it. -/
structure Unterminated where
  /-- Where the `<<` stands. -/
  start : Position
deriving DecidableEq, Inhabited

/-- The complaint about a substitution that is not closed. -/
def Unterminated.message? (failure : Unterminated) : Option String := do
  return "unterminated substitution starting at " ++ (← failure.start.display?)

namespace Qualifier

/-- What a path of this qualifier starts with, before the name. -/
def lead : Qualifier → List Char
  | pipeline => "pipeline.parameters.".toList
  | localScope => "parameters.".toList

/-- The qualifier of a path: one that starts with `pipeline` is about the whole document. -/
def ofPath (path : List Char) : Qualifier :=
  if "pipeline".toList.isPrefixOf path then pipeline else localScope

end Qualifier

/-! ## Reading references -/

namespace Reference

/-- Whether a character may stand in the name of a parameter. -/
def isNameChar (c : Char) : Bool :=
  c.isAlphanum || c == '_' || c == '-'

/-- Whether a path is one of the two leads and a name. -/
def isPath (path : List Char) : Bool :=
  [Qualifier.pipeline, Qualifier.localScope].any fun qualifier =>
    qualifier.lead.isPrefixOf path &&
      let name := path.drop qualifier.lead.length
      !name.isEmpty && name.all isNameChar

/-- The reference that the body of a substitution spells, if it spells one. -/
def ofBody? (body : List Char) (range : Range) : Option Reference :=
  let path := Text.trim body
  if isPath path then
    let qualifier := Qualifier.ofPath path
    some {
      name := String.ofList (path.drop qualifier.lead.length)
      path := String.ofList path
      qualifier := qualifier
      range := range }
  else none

mutual

/-- Read on outside a substitution, at position `p`. -/
def scanText (p : Position) : List Char → Except Unterminated (List Reference)
  | [] => .ok []
  | '<' :: '<' :: rest => scanBody p ((p.advance '<').advance '<') [] rest
  | c :: rest => scanText (p.advance c) rest

/-- Read on at position `p` inside the substitution that starts at `start`; `body` holds what has
    been read of its body, the last character first. -/
def scanBody (start p : Position) (body : List Char) :
    List Char → Except Unterminated (List Reference)
  | [] => .error ⟨start⟩
  | '>' :: '>' :: rest =>
    let stop := (p.advance '>').advance '>'
    match scanText stop rest with
    | .ok found => .ok ((ofBody? body.reverse ⟨start, stop⟩).toList ++ found)
    | .error failure => .error failure
  | c :: rest => scanBody start (p.advance c) (c :: body) rest

end

end Reference

/-- The references of a text in order. -/
def references (text : List Char) : Except Unterminated (List Reference) :=
  Reference.scanText Position.origin text

/-- The reference that makes up the whole text, blanks around it apart. -/
def loneReference? (text : List Char) : Option Reference :=
  let trimmed := Text.trim text
  match references trimmed with
  | .ok [reference] =>
    if reference.range = ⟨Position.origin, Position.origin.advanceBy trimmed⟩ then some reference
    else none
  | _ => none

end PipelineLint
