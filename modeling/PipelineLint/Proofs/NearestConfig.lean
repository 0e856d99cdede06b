import PipelineLint.Config.Search

set_option autoImplicit false

/-! # The nearest configuration decides

The search for a configuration goes up from a path to its parent, the parent of that, and so on.
`Path.up?` numbers these paths; a path has no more of them than segments that count, so the search
comes to an end (`Path.up?_eq_none`). It finds the file at the first of them that has one
(`Config.find?_eq_some_iff`).

What is in that file is then the outcome, be it a configuration or an error (`Config.Loads`). Files
farther up are never asked for, and the default only stands in for a file that is not there
(`Config.choose_nearest`). -/

namespace PipelineLint

/-! ## The way up -/

namespace Path

/-- The path so many steps up, where each step leads to the parent. -/
def up? (path : Path) : Nat → Option Path
  | 0 => some path
  | n + 1 => (path.up? n).bind parent?

/-- The first step may be made first, too. -/
theorem up?_succ (path : Path) (n : Nat) : path.up? (n + 1) = path.parent?.bind (·.up? n) := by
  induction n with
  | zero =>
    rw [up?, up?, Option.bind_some]
    cases path.parent? <;> rfl
  | succ n ih =>
    rw [up?, ih, Option.bind_assoc]
    rfl

theorem getElem?_ancestors (path : Path) (n : Nat) : path.ancestors[n]? = path.up? n := by
  fun_induction ancestors path generalizing n with
  | case1 path htop =>
    cases n with
    | zero => rfl
    | succ n =>
      rw [up?_succ, htop]
      rfl
  | case2 path up hup ih =>
    cases n with
    | zero => rfl
    | succ n =>
      rw [List.getElem?_cons_succ, ih, up?_succ, hup]
      rfl

/-- Each step up takes away a segment that counts. -/
theorem depth_add_le {path up : Path} {n : Nat} (h : path.up? n = some up) :
    up.depth + n ≤ path.depth := by
  induction n generalizing up with
  | zero =>
    obtain rfl := Option.some.inj h
    exact Nat.le_refl _
  | succ n ih =>
    obtain ⟨below, hbelow, hup⟩ := Option.bind_eq_some_iff.1 h
    have hstep := depth_lt_of_parent? hup
    have hrest := ih hbelow
    omega

theorem up?_eq_none {path : Path} {n : Nat} (h : path.depth < n) : path.up? n = none := by
  rw [Option.eq_none_iff_forall_not_mem]
  intro up hup
  have hle := depth_add_le hup
  omega

end Path

namespace Config

/-! ## The nearest file -/

section

variable (files : FileSystem Id) (start : Path)

/-- Whether `file` is a configuration file, in the directory `level` steps up from `start`. -/
def FileAt (level : Nat) (file : Path) : Prop :=
  ∃ directory, start.up? level = some directory ∧ directory.child fileName = file
    ∧ (files.isFile file).run = true

/-- Whether there is no configuration file in the directory `start` or above it. -/
def NoFile : Prop :=
  ∀ level file, ¬ FileAt files start level file

/-- Whether `file` is the nearest configuration file, `level` steps up from `start`. -/
structure IsNearest (level : Nat) (file : Path) : Prop where
  fileAt : FileAt files start level file
  noneBefore : ∀ lower < level, ∀ other, ¬ FileAt files start lower other

end

variable {files : FileSystem Id}

theorem firstWithFile?_eq_find? (directories : List Path) :
    (firstWithFile? files directories).run
      = (directories.map (·.child fileName)).find? fun file => (files.isFile file).run := by
  induction directories with
  | nil => rfl
  | cons directory rest ih =>
    rw [List.map_cons, List.find?_cons, ← ih, firstWithFile?]
    cases hfile : (files.isFile (directory.child fileName)).run with
    | true => simp [hfile]
    | false => simp [hfile]

/-- The candidates of a search, by the number of steps up. -/
theorem fileAt_iff {start : Path} {level : Nat} {file : Path} :
    FileAt files start level file
      ↔ (start.ancestors.map (·.child fileName))[level]? = some file
        ∧ (files.isFile file).run = true := by
  simp only [FileAt, List.getElem?_map, Path.getElem?_ancestors, Option.map_eq_some_iff]
  constructor
  · rintro ⟨directory, hup, hchild, hfile⟩
    exact ⟨⟨directory, hup, hchild⟩, hfile⟩
  · rintro ⟨⟨directory, hup, hchild⟩, hfile⟩
    exact ⟨directory, hup, hchild, hfile⟩

theorem find?_eq_none_iff {start : Path} :
    (find? files start).run = none ↔ NoFile files start := by
  rw [find?, firstWithFile?_eq_find?, List.find?_eq_none]
  constructor
  · intro hnone level file hat
    obtain ⟨hcandidate, hfile⟩ := fileAt_iff.1 hat
    exact hnone file (List.mem_of_getElem? hcandidate) hfile
  · intro hnone file hmem hfile
    obtain ⟨level, hcandidate⟩ := List.mem_iff_getElem?.1 hmem
    exact hnone level file (fileAt_iff.2 ⟨hcandidate, hfile⟩)

theorem find?_eq_some_iff {start file : Path} :
    (find? files start).run = some file ↔ ∃ level, IsNearest files start level file := by
  rw [find?, firstWithFile?_eq_find?, List.find?_eq_some_iff_getElem]
  constructor
  · rintro ⟨hfile, level, hlevel, rfl, hbefore⟩
    refine ⟨level, fileAt_iff.2 ⟨List.getElem?_eq_getElem hlevel, hfile⟩, ?_⟩
    intro lower hlower other hat
    obtain ⟨hcandidate, hother⟩ := fileAt_iff.1 hat
    obtain ⟨hlt, rfl⟩ := List.getElem?_eq_some_iff.1 hcandidate
    exact absurd hother (by simpa using hbefore lower hlower)
  · rintro ⟨level, hat, hbefore⟩
    obtain ⟨hcandidate, hfile⟩ := fileAt_iff.1 hat
    obtain ⟨hlevel, rfl⟩ := List.getElem?_eq_some_iff.1 hcandidate
    refine ⟨hfile, level, hlevel, rfl, ?_⟩
    intro lower hlower
    have hlt := Nat.lt_trans hlower hlevel
    have hnot := fun hfile =>
      hbefore lower hlower _ (fileAt_iff.2 ⟨List.getElem?_eq_getElem hlt, hfile⟩)
    simpa using hnot

/-- Of a file system only the answers up to the nearest file matter to which one it is. -/
theorem IsNearest.of_isFile_eq {other : FileSystem Id} {start file : Path} {level : Nat}
    (h : IsNearest files start level file)
    (hsame : ∀ lower ≤ level, ∀ directory, start.up? lower = some directory →
      (other.isFile (directory.child fileName)).run
        = (files.isFile (directory.child fileName)).run) :
    IsNearest other start level file := by
  obtain ⟨directory, hup, rfl, hfile⟩ := h.fileAt
  refine ⟨⟨directory, hup, rfl, ?_⟩, ?_⟩
  · rw [hsame level (Nat.le_refl _) directory hup, hfile]
  · rintro lower hlower _ ⟨below, hbelow, rfl, hother⟩
    rw [hsame lower (Nat.le_of_lt hlower) below hbelow] at hother
    exact h.noneBefore lower hlower _ ⟨below, hbelow, rfl, hother⟩

/-! ## What is in a file -/

/-- What loading the file at a path comes to. -/
inductive Loads (files : FileSystem Id) (path : Path) : Except LoadError Config → Prop where
  | unreadable {error : ReadError} (hread : (files.read path).run = .error error) :
    Loads files path (.error (.unreadable error))
  | problem {text : String} {problem : Problem} (hread : (files.read path).run = .ok text)
    (hparse : parse text = .error problem) : Loads files path (.error (.problem problem))
  | config {text : String} {config : Config} (hread : (files.read path).run = .ok text)
    (hparse : parse text = .ok config) : Loads files path (.ok config)

theorem Loads.load_eq {path : Path} {outcome : Except LoadError Config}
    (h : Loads files path outcome) : (load files path).run = outcome := by
  cases h with
  | unreadable hread => simp [load, hread]
  | problem hread hparse => simp [load, hread, hparse]
  | config hread hparse => simp [load, hread, hparse]

theorem loads_load (path : Path) : Loads files path (load files path).run := by
  obtain ⟨outcome, h⟩ : ∃ outcome, Loads files path outcome := by
    cases hread : (files.read path).run with
    | error error => exact ⟨_, .unreadable hread⟩
    | ok text =>
      cases hparse : parse text with
      | error problem => exact ⟨_, .problem hread hparse⟩
      | ok config => exact ⟨_, .config hread hparse⟩
  rw [h.load_eq]
  exact h

theorem load_eq_iff {path : Path} {outcome : Except LoadError Config} :
    (load files path).run = outcome ↔ Loads files path outcome := by
  constructor
  · rintro rfl
    exact loads_load path
  · exact Loads.load_eq

theorem not_loads_notFound {path directory : Path} :
    ¬ Loads files path (.error (.notFound directory)) := by
  intro h
  cases h

/-! ## The outcome of a search -/

/-- The directory from which the configuration for a file is searched. -/
def startFor (file : Path) : Path :=
  file.parent?.getD { first := "." }

/-- What the nearest configuration comes to, and `otherwise` if there is none. -/
inductive LoadsNearest (files : FileSystem Id) (start : Path)
    (otherwise : Except LoadError Config) : Except LoadError Config → Prop where
  | nearest {level : Nat} {file : Path} {outcome : Except LoadError Config}
    (hnearest : IsNearest files start level file) (hloads : Loads files file outcome) :
    LoadsNearest files start otherwise outcome
  | otherwise (hnone : NoFile files start) : LoadsNearest files start otherwise otherwise

theorem loadNearest_of_isNearest {file nearest : Path} {level : Nat}
    (h : IsNearest files (startFor file) level nearest) :
    (loadNearest files file).run = (load files nearest).run := by
  have hfind := find?_eq_some_iff.2 ⟨level, h⟩
  rw [startFor] at hfind
  simp [loadNearest, hfind]

theorem loadNearest_of_noFile {file : Path} (h : NoFile files (startFor file)) :
    (loadNearest files file).run = .error (.notFound (startFor file)) := by
  have hfind := find?_eq_none_iff.2 h
  rw [startFor] at hfind ⊢
  simp [loadNearest, hfind]

/-- Neither what files farther up hold nor whether they are there matters. -/
theorem loadNearest_eq_of_isNearest {other : FileSystem Id} {file nearest : Path} {level : Nat}
    (h : IsNearest files (startFor file) level nearest)
    (hisFile : ∀ lower ≤ level, ∀ directory, (startFor file).up? lower = some directory →
      (other.isFile (directory.child fileName)).run
        = (files.isFile (directory.child fileName)).run)
    (hread : (other.read nearest).run = (files.read nearest).run) :
    (loadNearest other file).run = (loadNearest files file).run := by
  have hload : (load other nearest).run = (load files nearest).run := by simp [load, hread]
  rw [loadNearest_of_isNearest h, loadNearest_of_isNearest (h.of_isFile_eq hisFile), hload]

/-- There is a nearest file or none at all, so the two cases determine an outcome. -/
theorem eq_iff_loadsNearest {start : Path} {otherwise found : Except LoadError Config}
    (hnone : NoFile files start → found = otherwise)
    (hnearest : ∀ level file, IsNearest files start level file → found = (load files file).run)
    (outcome : Except LoadError Config) :
    found = outcome ↔ LoadsNearest files start otherwise outcome := by
  constructor
  · rintro rfl
    cases hfind : (find? files start).run with
    | none =>
      have hno := find?_eq_none_iff.1 hfind
      rw [hnone hno]
      exact .otherwise hno
    | some file =>
      obtain ⟨level, hfile⟩ := find?_eq_some_iff.1 hfind
      rw [hnearest level file hfile]
      exact .nearest hfile (loads_load file)
  · intro h
    cases h with
    | nearest hfile hloads => rw [hnearest _ _ hfile, hloads.load_eq]
    | otherwise hno => exact hnone hno

theorem loadNearest_eq_iff {file : Path} {outcome : Except LoadError Config} :
    (loadNearest files file).run = outcome
      ↔ LoadsNearest files (startFor file) (.error (.notFound (startFor file))) outcome :=
  eq_iff_loadsNearest loadNearest_of_noFile (fun _ _ => loadNearest_of_isNearest) outcome

theorem loadNearest_eq_notFound_iff {file directory : Path} :
    (loadNearest files file).run = .error (.notFound directory)
      ↔ NoFile files (startFor file) ∧ directory = startFor file := by
  rw [loadNearest_eq_iff]
  constructor
  · intro h
    cases h with
    | nearest hnearest hloads => exact absurd hloads not_loads_notFound
    | otherwise hnone => exact ⟨hnone, rfl⟩
  · rintro ⟨hnone, rfl⟩
    exact .otherwise hnone

/-! ## The configuration of a run -/

theorem choose_none_eq_iff {file : Path} {outcome : Except LoadError Config} :
    (choose files none file).run = outcome
      ↔ LoadsNearest files (startFor ((files.canonical? file).run.getD file)) (.ok {}) outcome := by
  apply eq_iff_loadsNearest
  · intro hnone
    have hload := loadNearest_of_noFile hnone
    simp [choose, hload]
  · intro level nearest hnearest
    have hload := loadNearest_of_isNearest hnearest
    -- only the error that there is no file is replaced, and loading a file never gives that one
    cases hloads : (load files nearest).run with
    | ok config => simp [choose, hload, hloads]
    | error error =>
      cases error with
      | notFound directory => exact absurd (load_eq_iff.1 hloads) not_loads_notFound
      | unreadable error => simp [choose, hload, hloads]
      | problem problem => simp [choose, hload, hloads]

/-- **The nearest configuration decides.** The paths above a path come to an end. The search goes
    up along them and finds the file at the first one that has one, and nothing if none has. Loading
    the nearest configuration gives what is in that file, errors included; that there is none is the
    outcome exactly if none of the paths has a file. What files farther up hold, and whether they
    are there, does not matter. An explicit configuration is what the file at its path holds.
    Without one, the search starts from the parent of the file that is checked, under its absolute
    path if it has one, and the default configuration is taken exactly if there is no file, or if
    the nearest one holds just that. -/
theorem choose_nearest (files : FileSystem Id) :
    (∀ start : Path,
      (∀ level, start.depth < level → start.up? level = none)
      ∧ (∀ file, (find? files start).run = some file ↔ ∃ level, IsNearest files start level file)
      ∧ ((find? files start).run = none ↔ NoFile files start))
    ∧ (∀ (file : Path) (outcome : Except LoadError Config),
      (loadNearest files file).run = outcome
        ↔ LoadsNearest files (startFor file) (.error (.notFound (startFor file))) outcome)
    ∧ (∀ file directory : Path,
      (loadNearest files file).run = .error (.notFound directory)
        ↔ NoFile files (startFor file) ∧ directory = startFor file)
    ∧ (∀ (file nearest : Path) (level : Nat) (other : FileSystem Id),
      IsNearest files (startFor file) level nearest →
      (∀ lower ≤ level, ∀ directory, (startFor file).up? lower = some directory →
        (other.isFile (directory.child fileName)).run
          = (files.isFile (directory.child fileName)).run) →
      (other.read nearest).run = (files.read nearest).run →
      (loadNearest other file).run = (loadNearest files file).run)
    ∧ (∀ (path file : Path) (outcome : Except LoadError Config),
      (choose files (some path) file).run = outcome ↔ Loads files path outcome)
    ∧ (∀ (file : Path) (outcome : Except LoadError Config),
      (choose files none file).run = outcome
        ↔ LoadsNearest files (startFor ((files.canonical? file).run.getD file)) (.ok {})
          outcome) := by
  refine ⟨?_, ?_, ?_, ?_, ?_, ?_⟩
  · intro start
    exact ⟨fun level => Path.up?_eq_none, fun file => find?_eq_some_iff, find?_eq_none_iff⟩
  · intro file outcome
    exact loadNearest_eq_iff
  · intro file directory
    exact loadNearest_eq_notFound_iff
  · intro file nearest level other
    exact loadNearest_eq_of_isNearest
  · intro path file outcome
    exact load_eq_iff
  · intro file outcome
    exact choose_none_eq_iff

/-- A configuration that is no TOML hides the sound one in the directory above it, which would be
    found by its path; that no other file can be read makes no difference. -/
theorem choose_nearest_broken :
    let tree := FileTree.ofContents ["work"]
      [("pipecheck.toml", ""), ("ci/pipecheck.toml", "["), ("ci/nested/config.json", "")] []
    let files := tree.fileSystem
    let file := Path.ofString "/work/ci/nested/config.json"
    let nearest := Path.ofString "/work/ci/pipecheck.toml"
    let unreadable : FileSystem Id :=
      { files with read := fun path => if path = nearest then files.read path else .error .notText }
    (∃ level, IsNearest files (startFor file) level nearest)
      ∧ (choose files none (Path.ofString "ci/nested/config.json")).run
        = .error (.problem .invalid)
      ∧ (choose files (some (Path.ofString "pipecheck.toml")) file).run = .ok {}
      ∧ (loadNearest unreadable file).run = (loadNearest files file).run := by
  intro tree files file nearest unreadable
  obtain ⟨hfind, -, -, hfarther, hexplicit, hchoose⟩ := choose_nearest files
  have hnearest : ∃ level, IsNearest files (startFor file) level nearest :=
    ((hfind _).2.1 nearest).1 (by decide +kernel)
  obtain ⟨level, hlevel⟩ := hnearest
  have hcanonical :
      (files.canonical? (Path.ofString "ci/nested/config.json")).run = some file := by
    decide +kernel
  have hbroken : (files.read nearest).run = .ok "[" := rfl
  have hsound : (files.read (Path.ofString "pipecheck.toml")).run = .ok "" := rfl
  have hsame : (unreadable.read nearest).run = (files.read nearest).run := by
    simp only [unreadable, if_pos]
  refine ⟨⟨level, hlevel⟩, (hchoose _ _).2 ?_, (hexplicit _ _ _).2 (.config hsound rfl), ?_⟩
  · rw [hcanonical]
    exact .nearest hlevel (.problem hbroken rfl)
  · exact hfarther file nearest level unreadable hlevel (fun _ _ _ _ => rfl) hsame

end Config

end PipelineLint
