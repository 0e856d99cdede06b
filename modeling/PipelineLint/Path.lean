set_option autoImplicit false

/-! # Paths

Paths of files as they are written, cut at their slashes. Nothing is looked up: the parent of a
path is found in its text alone, where a segment that is empty or a single dot counts for nothing,
unless it is the first one, and two dots are a segment like any other.

`Path.ancestors` lists a path, its parent, the parent of that, and so on. -/

namespace PipelineLint

/-- A path, cut at its slashes. The first segment of an absolute path is empty. -/
structure Path where
  first : String
  others : List String := []
deriving DecidableEq, Inhabited

namespace Path

/-- The pieces of a text between its slashes, where `piece` has been read of the first one, the
    last character first. -/
def cut (piece : List Char) : List Char → String × List String
  | [] => (String.ofList piece.reverse, [])
  | c :: rest =>
    if c = '/' then
      let (next, others) := cut [] rest
      (String.ofList piece.reverse, next :: others)
    else cut (c :: piece) rest

/-- The path with a text. -/
def ofString (text : String) : Path :=
  let (first, others) := cut [] text.toList
  { first, others }

/-- The text of a path. -/
def text (path : Path) : String :=
  String.intercalate "/" (path.first :: path.others)

/-- Whether a path starts at the root. -/
def isAbsolute (path : Path) : Bool :=
  path.first.isEmpty && !path.others.isEmpty

/-- Whether a segment after the first one counts. -/
def counts (segment : String) : Bool :=
  segment != "" && segment != "."

/-- Segments, the last one first, without those at the end of the path that do not count. -/
def dropUncounted (segments : List String) : List String :=
  segments.dropWhile (!counts ·)

/-- A file in the directory at a path. -/
def child (path : Path) (name : String) : Path :=
  if path.others.isEmpty then
    if path.first.isEmpty then { first := name } else { path with others := [name] }
  else if path.others.getLast? = some "" then
    { path with others := path.others.dropLast ++ [name] }
  else { path with others := path.others ++ [name] }

/-- What `other` means at a path: itself if it is absolute. -/
def join (path other : Path) : Path :=
  if other.isAbsolute then other
  else
    let start := path.child other.first
    { start with others := start.others ++ other.others }

/-- The path one segment up; the root and the empty path have none. -/
def parent? (path : Path) : Option Path :=
  match dropUncounted path.others.reverse with
  | [] => if path.first.isEmpty then none else some { first := "" }
  | _ :: above =>
    match dropUncounted above with
    | [] => some { first := path.first, others := if path.first.isEmpty then [""] else [] }
    | segment :: rest => some { first := path.first, others := (segment :: rest).reverse }

/-- The name of the file at a path, if its last segment that counts is a name. -/
def fileName? (path : Path) : Option String :=
  match dropUncounted path.others.reverse with
  | last :: _ => if last = ".." then none else some last
  | [] => if ["", ".", ".."].contains path.first then none else some path.first

/-! ## Ancestors -/

/-- The number of segments that count. -/
def depth (path : Path) : Nat :=
  (if path.first.isEmpty then 0 else 1) + (path.others.filter counts).length

theorem filter_dropUncounted (segments : List String) :
    (dropUncounted segments).filter counts = segments.filter counts := by
  induction segments with
  | nil => rfl
  | cons segment rest ih =>
    by_cases h : counts segment
    · simp [dropUncounted, h]
    · simpa [dropUncounted, h] using ih

theorem counts_of_dropUncounted_eq_cons {segments rest : List String} {segment : String}
    (h : dropUncounted segments = segment :: rest) : counts segment = true := by
  have hhead := List.head?_dropWhile_not (fun s => !counts s) segments
  rw [show segments.dropWhile (fun s => !counts s) = segment :: rest from h] at hhead
  simpa using hhead

/-- The parent of a path has fewer segments that count. -/
theorem depth_lt_of_parent? {path up : Path} (h : path.parent? = some up) :
    up.depth < path.depth := by
  have hlen : (path.others.filter counts).length
      = ((dropUncounted path.others.reverse).filter counts).length := by
    rw [filter_dropUncounted, List.filter_reverse, List.length_reverse]
  rw [parent?] at h
  split at h
  · split at h
    · exact absurd h (by simp)
    · next hfirst =>
      obtain rfl := Option.some.inj h
      rw [show ({ first := "" } : Path).depth = 0 from rfl, depth, if_neg hfirst]
      omega
  · next segment above hcons =>
    rw [hcons, List.filter_cons_of_pos (counts_of_dropUncounted_eq_cons hcons),
      List.length_cons, ← filter_dropUncounted above] at hlen
    split at h
    · next hnil =>
      obtain rfl := Option.some.inj h
      rw [hnil] at hlen
      by_cases hfirst : path.first.isEmpty <;> simp [depth, hfirst, counts, hlen]
    · next next rest hnext =>
      obtain rfl := Option.some.inj h
      rw [hnext] at hlen
      simp only [depth, List.filter_reverse, List.length_reverse, hlen]
      omega

/-- A path, its parent, the parent of that, and so on. -/
def ancestors (path : Path) : List Path :=
  match _h : path.parent? with
  | none => [path]
  | some up => path :: ancestors up
termination_by path.depth
decreasing_by exact depth_lt_of_parent? ‹_›

end Path

end PipelineLint
