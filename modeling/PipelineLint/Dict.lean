set_option autoImplicit false

/-! # Dictionaries

Finite maps from names to values. The entries are kept in ascending order of their names, by code
points, each name once, so that going through a dictionary has one fixed order and two dictionaries
with the same entries are equal.

What an operation does is said by `Dict.get?`: `get?_insert`, `get?_erase`, `get?_insertMany` and
`get?_overlay`. -/

namespace PipelineLint

/-! ## Sorted entries -/

namespace Entries

variable {α : Type}

/-- Put a value under a name, in its place among sorted entries. A value that already stands there
    is replaced. -/
def insert (name : String) (value : α) : List (String × α) → List (String × α)
  | [] => [(name, value)]
  | entry :: rest =>
    if name < entry.1 then (name, value) :: entry :: rest
    else if name = entry.1 then (name, value) :: rest
    else entry :: insert name value rest

/-- Whether the names are in ascending order, each standing once. -/
abbrev Sorted (entries : List (String × α)) : Prop :=
  entries.Pairwise fun a b => a.1 < b.1

/-- The names after an insertion are those before it and the new one. -/
theorem fst_of_mem_insert {name : String} {value : α} {entries : List (String × α)}
    {entry : String × α} (h : entry ∈ insert name value entries) :
    entry.1 = name ∨ entry ∈ entries := by
  induction entries with
  | nil =>
    simp only [insert, List.mem_singleton] at h
    exact Or.inl (by rw [h])
  | cons first rest ih =>
    rw [insert] at h
    split at h
    · rcases List.mem_cons.1 h with rfl | h
      · exact Or.inl rfl
      · exact Or.inr h
    · split at h
      · rcases List.mem_cons.1 h with rfl | h
        · exact Or.inl rfl
        · exact Or.inr (List.mem_cons_of_mem _ h)
      · rcases List.mem_cons.1 h with rfl | h
        · exact Or.inr List.mem_cons_self
        · exact (ih h).imp_right (List.mem_cons_of_mem _)

/-- An insertion keeps entries sorted. -/
theorem Sorted.insert {entries : List (String × α)} (h : Sorted entries) (name : String)
    (value : α) : Sorted (insert name value entries) := by
  induction entries with
  | nil => simp [Entries.insert, Sorted]
  | cons first rest ih =>
    obtain ⟨hfirst, hrest⟩ := List.pairwise_cons.1 h
    rw [Entries.insert]
    split
    · next hlt =>
      refine List.pairwise_cons.2 ⟨fun entry hentry => ?_, h⟩
      rcases List.mem_cons.1 hentry with rfl | hentry
      · exact hlt
      · exact String.lt_trans hlt (hfirst entry hentry)
    · next hlt =>
      split
      · next heq =>
        subst heq
        exact List.pairwise_cons.2 ⟨hfirst, hrest⟩
      · next hne =>
        refine List.pairwise_cons.2 ⟨fun entry hentry => ?_, ih hrest⟩
        rcases fst_of_mem_insert hentry with heq | hentry
        · rw [heq]
          have hle : first.1 ≤ name := String.not_lt.1 hlt
          exact Decidable.byContradiction fun hnot =>
            hne (String.le_antisymm (String.not_lt.1 hnot) hle)
        · exact hfirst entry hentry

theorem lookup_cons_eq_ite (entry : String × α) (rest : List (String × α)) (name : String) :
    (entry :: rest).lookup name = if name = entry.1 then some entry.2 else rest.lookup name := by
  obtain ⟨key, value⟩ := entry
  by_cases h : name = key
  · simp [h]
  · have hkey : (name == key) = false := by simpa using h
    simp [List.lookup_cons, h, hkey]

/-- After an insertion the name has the new value, and the other names have what they had. -/
theorem lookup_insert (name : String) (value : α) (entries : List (String × α)) (other : String) :
    (insert name value entries).lookup other
      = if other = name then some value else entries.lookup other := by
  induction entries with
  | nil => simp [insert, lookup_cons_eq_ite]
  | cons first rest ih =>
    rw [insert]
    split
    · simp [lookup_cons_eq_ite]
    · split
      · next heq =>
        simp only [lookup_cons_eq_ite, heq]
        split <;> rfl
      · next hne =>
        simp only [lookup_cons_eq_ite, ih]
        by_cases h : other = first.1
        · simp [h, Ne.symm hne]
        · simp [h]

/-- Without the entries of one name, that name has no value, and the other names have what they
    had. -/
theorem lookup_filter_ne (name : String) (entries : List (String × α)) (other : String) :
    (entries.filter (·.1 != name)).lookup other
      = if other = name then none else entries.lookup other := by
  induction entries with
  | nil => simp
  | cons first rest ih =>
    by_cases hkey : first.1 = name
    · rw [List.filter_cons_of_neg (by simp [hkey]), ih, lookup_cons_eq_ite, hkey]
      split <;> rfl
    · rw [List.filter_cons_of_pos (by simp [hkey]), lookup_cons_eq_ite, lookup_cons_eq_ite, ih]
      by_cases h : other = first.1
      · simp [h, hkey]
      · simp [h]

/-- A name below all names of a list has no value there. -/
theorem lookup_eq_none_of_lt {name : String} {entries : List (String × α)}
    (h : ∀ entry ∈ entries, name < entry.1) : entries.lookup name = none := by
  rw [List.lookup_eq_none_iff]
  intro entry hentry
  simpa using fun heq : name = entry.1 =>
    String.lt_irrefl entry.1 (heq ▸ h entry hentry)

/-- Sorted entries hold what is looked up in them, and nothing else. -/
theorem lookup_eq_some_iff {entries : List (String × α)} (h : Sorted entries) {name : String}
    {value : α} : entries.lookup name = some value ↔ (name, value) ∈ entries := by
  induction entries with
  | nil => simp
  | cons first rest ih =>
    obtain ⟨hfirst, hrest⟩ := List.pairwise_cons.1 h
    rw [lookup_cons_eq_ite, List.mem_cons]
    by_cases hname : name = first.1
    · have hnot : (name, value) ∉ rest := by
        intro hmem
        exact String.lt_irrefl name (hname ▸ hfirst (name, value) hmem)
      rw [if_pos hname]
      constructor
      · intro heq
        exact Or.inl (Prod.ext hname (Option.some.inj heq).symm)
      · intro hmem
        rw [← hmem.resolve_right hnot]
    · rw [if_neg hname, ih hrest]
      constructor
      · exact Or.inr
      · rintro (heq | hmem)
        · exact absurd (congrArg Prod.fst heq) hname
        · exact hmem

end Entries

/-! ## Dictionaries -/

/-- A finite map from names to values. -/
structure Dict (α : Type) where
  /-- The names and their values, in ascending order of the names. -/
  entries : List (String × α)
  sorted : Entries.Sorted entries

namespace Dict

variable {α : Type}

/-- The dictionary without entries. -/
def empty : Dict α := ⟨[], List.Pairwise.nil⟩

instance : Inhabited (Dict α) := ⟨empty⟩

/-- Whether there are no entries. -/
def isEmpty (dict : Dict α) : Bool :=
  dict.entries.isEmpty

/-- The names in ascending order. -/
def keys (dict : Dict α) : List String :=
  dict.entries.map Prod.fst

/-- The values in ascending order of their names. -/
def values (dict : Dict α) : List α :=
  dict.entries.map Prod.snd

/-- The value under a name. -/
def get? (dict : Dict α) (name : String) : Option α :=
  dict.entries.lookup name

/-- Whether there is a value under a name. -/
def contains (dict : Dict α) (name : String) : Bool :=
  (dict.get? name).isSome

/-- Put a value under a name, in place of the one that stands there. -/
def insert (dict : Dict α) (name : String) (value : α) : Dict α :=
  ⟨Entries.insert name value dict.entries, dict.sorted.insert name value⟩

/-- Take away the value under a name. -/
def erase (dict : Dict α) (name : String) : Dict α :=
  ⟨dict.entries.filter (·.1 != name), dict.sorted.filter _⟩

/-- Put every entry of a list under its name, later ones in place of earlier ones. -/
def insertMany (dict : Dict α) (entries : List (String × α)) : Dict α :=
  entries.foldl (fun dict entry => dict.insert entry.1 entry.2) dict

/-- The dictionary of a list of entries; of several with one name the last one counts. -/
def ofList (entries : List (String × α)) : Dict α :=
  empty.insertMany entries

/-- The entries of `top`, and those of `base` under other names. -/
def overlay (base top : Dict α) : Dict α :=
  base.insertMany top.entries

/-! ### What the operations do to look-ups -/

@[simp] theorem get?_empty (name : String) : (empty : Dict α).get? name = none := rfl

theorem get?_insert (dict : Dict α) (name : String) (value : α) (other : String) :
    (dict.insert name value).get? other = if other = name then some value else dict.get? other :=
  Entries.lookup_insert name value dict.entries other

@[simp] theorem get?_insert_self (dict : Dict α) (name : String) (value : α) :
    (dict.insert name value).get? name = some value := by
  simp [get?_insert]

theorem get?_erase (dict : Dict α) (name other : String) :
    (dict.erase name).get? other = if other = name then none else dict.get? other :=
  Entries.lookup_filter_ne name dict.entries other

@[simp] theorem get?_erase_self (dict : Dict α) (name : String) :
    (dict.erase name).get? name = none := by
  simp [get?_erase]

/-- Of the entries of a list the last one with a name counts, and what stood there counts if the
    list has none. -/
theorem get?_insertMany (dict : Dict α) (entries : List (String × α)) (name : String) :
    (dict.insertMany entries).get? name = (entries.reverse.lookup name).or (dict.get? name) := by
  induction entries generalizing dict with
  | nil => simp [insertMany]
  | cons entry rest ih =>
    rw [show dict.insertMany (entry :: rest) = (dict.insert entry.1 entry.2).insertMany rest from
      rfl, ih, get?_insert, List.reverse_cons, List.lookup_append]
    rw [Entries.lookup_cons_eq_ite, List.lookup_nil]
    cases rest.reverse.lookup name <;> by_cases h : name = entry.1 <;> simp [h]

/-- Entries that are put on a dictionary in ascending order, each name once, count before it. -/
theorem get?_insertMany_of_sorted (dict : Dict α) {entries : List (String × α)}
    (h : Entries.Sorted entries) (name : String) :
    (dict.insertMany entries).get? name = (entries.lookup name).or (dict.get? name) := by
  induction entries generalizing dict with
  | nil => simp [insertMany]
  | cons entry rest ih =>
    obtain ⟨hfirst, hrest⟩ := List.pairwise_cons.1 h
    rw [show dict.insertMany (entry :: rest) = (dict.insert entry.1 entry.2).insertMany rest from
      rfl, ih _ hrest, get?_insert, Entries.lookup_cons_eq_ite]
    by_cases heq : name = entry.1
    · subst heq
      simp [Entries.lookup_eq_none_of_lt hfirst]
    · simp [heq]

theorem get?_ofList (entries : List (String × α)) (name : String) :
    (ofList entries).get? name = entries.reverse.lookup name := by
  simp [ofList, get?_insertMany]

theorem get?_overlay (base top : Dict α) (name : String) :
    (base.overlay top).get? name = (top.get? name).or (base.get? name) :=
  get?_insertMany_of_sorted base top.sorted name

/-! ### Entries and look-ups -/

theorem get?_eq_some_iff (dict : Dict α) {name : String} {value : α} :
    dict.get? name = some value ↔ (name, value) ∈ dict.entries :=
  Entries.lookup_eq_some_iff dict.sorted

theorem contains_iff (dict : Dict α) {name : String} :
    dict.contains name = true ↔ ∃ value, dict.get? name = some value :=
  Option.isSome_iff_exists

theorem mem_values_iff (dict : Dict α) {value : α} :
    value ∈ dict.values ↔ ∃ name, dict.get? name = some value := by
  simp only [values, List.mem_map, get?_eq_some_iff, Prod.exists, exists_eq_right]

theorem isEmpty_iff (dict : Dict α) : dict.isEmpty = true ↔ dict.entries = [] :=
  List.isEmpty_iff

end Dict

/-! ## Sets of names -/

/-- A finite set of names. -/
abbrev NameSet := Dict Unit

namespace NameSet

/-- Add a name. -/
def add (names : NameSet) (name : String) : NameSet :=
  names.insert name ()

/-- The set of the names in a list. -/
def ofNames (names : List String) : NameSet :=
  names.foldl add Dict.empty

theorem contains_add (names : NameSet) (name other : String) :
    (names.add name).contains other = (other == name || names.contains other) := by
  by_cases h : other = name <;> simp [add, Dict.contains, Dict.get?_insert, h]

end NameSet

end PipelineLint
