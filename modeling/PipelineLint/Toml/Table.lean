import PipelineLint.Toml.Basic

set_option autoImplicit false

/-! # Filling TOML tables

A TOML document is a list of statements that fill one table step by step. No key may be given a
value twice and no table may get two headers. A dotted key may add to a table that dotted keys have
made, but not to one with a header of its own; a header may add to any table that is not inline.
The path of a header or key that meets tables under double brackets goes into the last of them. -/

namespace PipelineLint.Toml

/-- The names and values in a table. -/
abbrev Entries := List (String × Toml)

/-- Change the value under a key, or put a first one there. -/
def update (key : String) (change : Option Toml → Option Toml) : Entries → Option Entries
  | [] => do return [(key, ← change none)]
  | entry :: rest =>
    if entry.1 = key then do return (key, ← change (some entry.2)) :: rest
    else do return entry :: (← update key change rest)

/-- Change the last of several tables. -/
def changeLast (change : Entries → Option Entries) : List Entries → Option (List Entries)
  | [] => none
  | [last] => do return [← change last]
  | first :: rest => do return first :: (← changeLast change rest)

/-- Change the table at the end of a path. Tables that are missing on the way are made in the given
    style. A path of dotted keys must not pass through a table that has a header. -/
def changeAt (style : TableStyle) (change : Entries → Option Entries) :
    (path : List String) → Entries → Option Entries
  | [], entries => change entries
  | key :: path, entries =>
    update key
      (fun
        | none => .table style <$> changeAt style change path []
        | some (.table own sub) =>
          if own = .inline ∨ (style = .dotted ∧ own = .header) then none
          else .table own <$> changeAt style change path sub
        | some (.tables all) => .tables <$> changeLast (changeAt style change path) all
        | some _ => none)
      entries

/-- Give a value to a key that has none. -/
def assignNew (key : String) (value : Toml) (entries : Entries) : Option Entries :=
  update key
    (fun
      | none => some value
      | some _ => none)
    entries

/-- Give a value to a dotted key: the last part of its path names the value, and the part before it
    must be a table that dotted keys have made. -/
def assign (path : List String) (key : String) (value : Toml) (entries : Entries) :
    Option Entries :=
  match path.getLast? with
  | none => assignNew key value entries
  | some last =>
    changeAt .dotted
      (update last fun
        | none => some (.table .dotted [(key, value)])
        | some (.table .dotted sub) => .table .dotted <$> assignNew key value sub
        | some _ => none)
      path.dropLast entries

/-- Start the table of a header. -/
def openTable (path : List String) (key : String) (entries : Entries) : Option Entries :=
  changeAt .implied
    (update key fun
      | none => some (.table .header [])
      | some (.table .implied sub) => some (.table .header sub)
      | some _ => none)
    path entries

/-- Start a further table of a header in double brackets. -/
def openFurtherTable (path : List String) (key : String) (entries : Entries) : Option Entries :=
  changeAt .implied
    (update key fun
      | none => some (.tables [[]])
      | some (.tables all) => some (.tables (all ++ [[]]))
      | some _ => none)
    path entries

/-! ## Documents -/

/-- A statement of a document. Keys are given as a path and the last part of it. -/
inductive Statement where
  | header (path : List String) (key : String)
  | furtherHeader (path : List String) (key : String)
  | assignment (path : List String) (key : String) (value : Toml)
deriving Inhabited

/-- A document that has been read up to some statement. -/
structure Draft where
  entries : Entries := []
  /-- The path of the table that assignments go to. -/
  current : List String := []
deriving Inhabited

/-- Carry out one statement. -/
def Draft.execute (draft : Draft) : Statement → Option Draft
  | .header path key => do
    return { entries := ← openTable path key draft.entries, current := path ++ [key] }
  | .furtherHeader path key => do
    return { entries := ← openFurtherTable path key draft.entries, current := path ++ [key] }
  | .assignment path key value => do
    return { draft with
      entries := ← changeAt .implied (assign path key value) draft.current draft.entries }

/-- The table that statements make. -/
def ofStatements? (statements : List Statement) : Option Entries := do
  return (← statements.foldlM Draft.execute {}).entries

end PipelineLint.Toml
