import PipelineLint.Path

set_option autoImplicit false

/-! # File systems

What a run asks of the file system. The questions are answered in some monad, so that the search
for a configuration and the run as a whole are the same functions on a real file system and on one
that is given as a value (`FileTree`). -/

namespace PipelineLint

/-- Why a file cannot be read. -/
inductive ReadError where
  | notFound
  /-- A segment of the path other than the last is a file. -/
  | notDirectory
  | isDirectory
  /-- The path or one of its segments is longer than the file system takes. -/
  | nameTooLong
  /-- The content is not text. -/
  | notText
  | other (description : String)
deriving DecidableEq, Inhabited

/-- The error in the words of the operating system. -/
def ReadError.message : ReadError → String
  | notFound => "No such file or directory (os error 2)"
  | notDirectory => "Not a directory (os error 20)"
  | isDirectory => "Is a directory (os error 21)"
  | nameTooLong => "File name too long (os error 36)"
  | notText => "stream did not contain valid UTF-8"
  | other description => description

/-- A file system, whose questions are answered in the monad `m`. -/
structure FileSystem (m : Type → Type) where
  /-- Whether there is a regular file at a path. -/
  isFile : Path → m Bool
  /-- The content of the file at a path. -/
  read : Path → m (Except ReadError String)
  /-- The absolute path of what is at a path, if there is something. -/
  canonical? : Path → m (Option Path)

/-! ## File systems as values -/

/-- Files and directories with the segments of their paths from the root. The directories above a
    file or directory are there too. -/
structure FileTree where
  files : List (List String × String) := []
  directories : List (List String) := []
  /-- The directory that relative paths start from. -/
  current : List String := []
deriving Inhabited

namespace FileTree

/-- Whether there is a directory at a place. -/
def isDirectory (tree : FileTree) (place : List String) : Bool :=
  place.isEmpty || tree.directories.any place.isPrefixOf
    || tree.files.any fun file => place.isPrefixOf file.1 && place != file.1

/-- The most bytes that the name of a file or directory may take. -/
def nameLimit : Nat := 255

/-- The most bytes that a path may take. -/
def pathLimit : Nat := 4095

/-- Where a segment leads from a directory. -/
def step (place : List String) (segment : String) : List String :=
  if !Path.counts segment then place
  else if segment = ".." then place.dropLast
  else place ++ [segment]

/-- Go on from a place along the segments of a path. A segment is only looked up in a directory, and
    only if it can be a name there. -/
def follow (tree : FileTree) (place : List String) : List String → Except ReadError (List String)
  | [] => .ok place
  | segment :: rest =>
    let next := step place segment
    if !tree.isDirectory place then .error .notDirectory
    else if segment.utf8ByteSize > nameLimit then .error .nameTooLong
    else if tree.isDirectory next || (tree.files.lookup next).isSome then tree.follow next rest
    else .error .notFound

/-- The place that a path starts from: the root, if it is absolute, or else `current`. -/
def base (current : List String) (path : Path) : List String :=
  if path.isAbsolute then [] else current

/-- The place that a path leads to. -/
def resolve (tree : FileTree) (path : Path) : Except ReadError (List String) :=
  if path.text.utf8ByteSize > pathLimit then .error .nameTooLong
  else if path.text.isEmpty then .error .notFound
  else tree.follow (base tree.current path) (path.first :: path.others)

/-- The content of the file at a path. -/
def read (tree : FileTree) (path : Path) : Except ReadError String := do
  let place ← tree.resolve path
  match tree.files.lookup place with
  | some content => .ok content
  | none => .error .isDirectory

/-- The file system that a tree stands for. -/
def fileSystem (tree : FileTree) : FileSystem Id where
  isFile path := (tree.read path).toOption.isSome
  read path := tree.read path
  canonical? path :=
    match tree.resolve path with
    | .ok [] => some { first := "", others := [""] }
    | .ok place => some { first := "", others := place }
    | .error _ => none

/-! ### Making a tree -/

/-- The places on the way from a place along the segments of a path, without the one where it
    ends. -/
def onTheWay (place : List String) : List String → List (List String)
  | [] => []
  | segment :: rest => place :: onTheWay (step place segment) rest

/-- Put a directory into a tree, with the directories on the way to it. -/
def addDirectory (tree : FileTree) (path : Path) : FileTree :=
  let start := base tree.current path
  let segments := path.first :: path.others
  { tree with
    directories := segments.foldl step start :: (onTheWay start segments ++ tree.directories) }

/-- Put a file into a tree, with the directories on the way to it and in place of a file that is
    already there. -/
def addFile (tree : FileTree) (path : Path) (content : String) : FileTree :=
  let start := base tree.current path
  let segments := path.first :: path.others
  { tree with
    files := (segments.foldl step start, content) :: tree.files
    directories := onTheWay start segments ++ tree.directories }

/-- The tree with these files and directories, given by their paths from the directory `current`. -/
def ofContents (current : List String) (files : List (String × String))
    (directories : List String) : FileTree :=
  let bare : FileTree := { directories := [current], current := current }
  let tree := directories.foldl (fun tree path => tree.addDirectory (Path.ofString path)) bare
  files.foldl (fun tree file => tree.addFile (Path.ofString file.1) file.2) tree

end FileTree

end PipelineLint
