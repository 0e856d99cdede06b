import PipelineLint.Proofs.SourceLines

set_option autoImplicit false

/-! # Runs of a cursor

A cursor keeps four accounts of the same thing: what is still to be read, how many bytes are read,
on which line it stands and at which character of it. `Cursor.HasRead` says that all of them are
about one first part of the text. Every operation keeps this, with the characters that the operation
has read added to that part (`HasRead.perform`), and so does every run of operations
(`HasRead.after`).

What a slice gives follows from that part alone (`HasRead.sliceFrom?_eq_some_iff`): it exists from
every character boundary up to the cursor on, and slices from one recorded offset to the next add up
to what has been read (`HasRead.slices`). -/

namespace PipelineLint

/-! ## Character boundaries -/

namespace Text

/-- The character boundaries of a string are where its first parts end. -/
theorem isValid_iff_exists_prefix {source : String} {n : Nat} :
    (String.Pos.Raw.mk n).IsValid source
      ↔ ∃ lead, lead <+: source.toList ∧ byteLength lead = n := by
  rw [String.Pos.Raw.isValid_iff_exists_append]
  constructor
  · rintro ⟨lead, rest, rfl, hn⟩
    refine ⟨lead.toList, ?_, ?_⟩
    · rw [String.toList_append]
      exact List.prefix_append _ _
    · rw [← utf8ByteSize_ofList, String.ofList_toList]
      exact congrArg String.Pos.Raw.byteIdx hn.symm
  · rintro ⟨lead, ⟨rest, hrest⟩, rfl⟩
    refine ⟨String.ofList lead, String.ofList rest, ?_, ?_⟩
    · rw [← String.ofList_append, hrest, String.ofList_toList]
    · rw [← utf8ByteSize_ofList]
      rfl

end Text

namespace Cursor

/-! ## Operations -/

/-- What can be asked of a cursor. -/
inductive Operation where
  | peek
  | peekSecond
  | atPair (first second : Char)
  | isAtEnd
  | advance
  | sliceFrom (start : Nat)

/-- What a cursor answers. -/
inductive Answer where
  | character (c : Option Char)
  | truth (holds : Bool)
  | slice (part : Option (List Char))

/-- The answer to an operation, and the cursor after it. -/
def perform (cursor : Cursor) : Operation → Answer × Cursor
  | .peek => (.character cursor.peek?, cursor)
  | .peekSecond => (.character cursor.peekSecond?, cursor)
  | .atPair first second => (.truth (cursor.atPair first second), cursor)
  | .isAtEnd => (.truth cursor.isAtEnd, cursor)
  | .advance => (.character cursor.advance.1, cursor.advance.2)
  | .sliceFrom start => (.slice (cursor.sliceFrom? start), cursor)

/-- The cursor after some operations. -/
def after (cursor : Cursor) (operations : List Operation) : Cursor :=
  operations.foldl (fun cursor operation => (cursor.perform operation).2) cursor

/-- The character that an operation has read, going by its answer: only `advance` reads. -/
def Operation.taken : Operation → Answer → List Char
  | .advance, .character (some c) => [c]
  | _, _ => []

/-- The characters that some operations read, one after the other. -/
def taken (cursor : Cursor) : List Operation → List Char
  | [] => []
  | operation :: rest =>
    operation.taken (cursor.perform operation).1 ++ (cursor.perform operation).2.taken rest

theorem after_append (cursor : Cursor) (operations more : List Operation) :
    cursor.after (operations ++ more) = (cursor.after operations).after more :=
  List.foldl_append

theorem taken_append (cursor : Cursor) (operations more : List Operation) :
    cursor.taken (operations ++ more)
      = cursor.taken operations ++ (cursor.after operations).taken more := by
  induction operations generalizing cursor with
  | nil => rfl
  | cons operation rest ih =>
    rw [List.cons_append, taken, ih, taken, List.append_assoc]
    rfl

theorem perform_of_ne_advance {operation : Operation} (h : operation ≠ .advance)
    (cursor : Cursor) :
    operation.taken (cursor.perform operation).1 = [] ∧ (cursor.perform operation).2 = cursor := by
  cases operation with
  | advance => exact absurd rfl h
  | peek | peekSecond | atPair | isAtEnd | sliceFrom => exact ⟨rfl, rfl⟩

/-! ## What has been read -/

/-- Whether all that a cursor knows is about `before`, a first part of `text`. -/
structure HasRead (cursor : Cursor) (text before : List Char) : Prop where
  source_eq : cursor.source = text
  append_rest : before ++ cursor.rest = text
  offset_eq : cursor.offset = Text.byteLength before
  position_eq : cursor.position = Position.after before

theorem hasRead_ofString (source : String) : (ofString source).HasRead source.toList [] where
  source_eq := rfl
  append_rest := rfl
  offset_eq := rfl
  position_eq := rfl

namespace HasRead

variable {cursor other : Cursor} {text before before' : List Char}

theorem advance (h : cursor.HasRead text before) :
    cursor.advance.2.HasRead text (before ++ cursor.advance.1.toList) := by
  have hread : cursor.advance.1.toList = cursor.rest.take 1 := by
    cases hrest : cursor.rest <;> simp [Cursor.advance, hrest]
  rw [advance_eq, hread]
  refine ⟨h.source_eq, ?_, ?_, ?_⟩
  · show before ++ cursor.rest.take 1 ++ cursor.rest.drop 1 = text
    rw [List.append_assoc, List.take_append_drop, h.append_rest]
  · show cursor.offset + Text.byteLength (cursor.rest.take 1) = _
    rw [h.offset_eq, Text.byteLength_append]
  · show cursor.position.advanceBy (cursor.rest.take 1) = _
    rw [h.position_eq, Position.advanceBy_after]

/-- An operation adds to what has been read the character that it has read, if it has read one. -/
theorem perform (h : cursor.HasRead text before) (operation : Operation) :
    (cursor.perform operation).2.HasRead text
      (before ++ operation.taken (cursor.perform operation).1) := by
  by_cases hoperation : operation = .advance
  · subst hoperation
    have hnext := h.advance
    show cursor.advance.2.HasRead text
      (before ++ Operation.advance.taken (.character cursor.advance.1))
    cases hread : cursor.advance.1 <;> rw [hread] at hnext <;> exact hnext
  · obtain ⟨htaken, hcursor⟩ := perform_of_ne_advance hoperation cursor
    rw [htaken, hcursor, List.append_nil]
    exact h

/-- So a run adds all that its operations read. -/
theorem after (h : cursor.HasRead text before) (operations : List Operation) :
    (cursor.after operations).HasRead text (before ++ cursor.taken operations) := by
  induction operations generalizing cursor before with
  | nil =>
    rw [taken, List.append_nil]
    exact h
  | cons operation rest ih =>
    rw [taken, ← List.append_assoc]
    exact ih (h.perform operation)

theorem consumed_eq (h : cursor.HasRead text before) : cursor.consumed = before := by
  have hlength : cursor.source.length - cursor.rest.length = before.length := by
    rw [h.source_eq, ← h.append_rest, List.length_append, Nat.add_sub_cancel]
  rw [consumed, hlength, h.source_eq, ← h.append_rest, List.take_left]

theorem prefix_text (h : cursor.HasRead text before) : before <+: text :=
  ⟨cursor.rest, h.append_rest⟩

theorem length_lt (h : cursor.HasRead text before) (hsize : text.length < UInt32.size) :
    before.length < UInt32.size :=
  h.prefix_text.length_le.trans_lt hsize

/-! ## Positions -/

/-- A character that is read moves the cursor to a later position. -/
theorem position_lt (h : cursor.HasRead text before) (hsize : text.length < UInt32.size) {c : Char}
    (hread : cursor.advance.1 = some c) : cursor.position < cursor.advance.2.position := by
  have hnext := h.advance
  rw [hread, Option.toList_some] at hnext
  rw [h.position_eq, hnext.position_eq]
  exact Position.after_lt_after_append (List.cons_ne_nil c []) (hnext.length_lt hsize)

/-- The position tells how much of the text has been read. -/
theorem eq_of_position_eq (h : cursor.HasRead text before) (h' : other.HasRead text before')
    (hsize : text.length < UInt32.size) (hposition : cursor.position = other.position) :
    before = before' := by
  rw [h.position_eq, h'.position_eq] at hposition
  rcases List.prefix_or_prefix_of_prefix h.prefix_text h'.prefix_text with hpre | hpre
  · exact Position.eq_of_after_eq_after hpre (h'.length_lt hsize) hposition
  · exact (Position.eq_of_after_eq_after hpre (h.length_lt hsize) hposition.symm).symm

/-! ## Slices -/

theorem sliceFrom?_eq_some_iff (h : cursor.HasRead text before) {start : Nat} {part : List Char} :
    cursor.sliceFrom? start = some part
      ↔ ∃ lead, before = lead ++ part ∧ Text.byteLength lead = start := by
  rw [sliceFrom?, h.source_eq, h.offset_eq, Text.sliceBytes?_eq_some_iff]
  constructor
  · rintro ⟨lead, more, htext, hlead, hstop⟩
    have hpre : lead ++ part <+: before :=
      (Text.prefix_iff_byteLength_le ⟨more, htext.symm⟩ h.prefix_text).2 hstop.le
    exact ⟨lead, (Text.eq_of_byteLength_le hpre hstop.ge).symm, hlead⟩
  · rintro ⟨lead, rfl, hlead⟩
    exact ⟨lead, cursor.rest, h.append_rest.symm, hlead, rfl⟩

/-- There is a slice from every character boundary of the text that the cursor has come to. -/
theorem isSome_sliceFrom?_iff {source : String} (h : cursor.HasRead source.toList before)
    {start : Nat} :
    (cursor.sliceFrom? start).isSome = true
      ↔ start ≤ cursor.offset ∧ (String.Pos.Raw.mk start).IsValid source := by
  rw [Option.isSome_iff_exists, Text.isValid_iff_exists_prefix, h.offset_eq]
  simp only [h.sliceFrom?_eq_some_iff]
  constructor
  · rintro ⟨part, lead, hbefore, rfl⟩
    have hlead : lead <+: before := ⟨part, hbefore.symm⟩
    exact ⟨Text.byteLength_le_byteLength hlead, lead, hlead.trans h.prefix_text, rfl⟩
  · rintro ⟨hle, lead, hlead, rfl⟩
    obtain ⟨part, hpart⟩ := (Text.prefix_iff_byteLength_le hlead h.prefix_text).2 hle
    exact ⟨part, lead, hpart.symm, rfl⟩

/-- A slice from an offset that was recorded holds what was read since then. -/
theorem sliceFrom?_after (h : cursor.HasRead text before) (operations : List Operation) :
    (cursor.after operations).sliceFrom? cursor.offset = some (cursor.taken operations) :=
  (h.after operations).sliceFrom?_eq_some_iff.2 ⟨before, rfl, h.offset_eq.symm⟩

end HasRead

/-- The slices of a run that is cut into groups: after each group, the slice from the offset at
    which the group started. -/
def slices (cursor : Cursor) : List (List Operation) → List (Option (List Char))
  | [] => []
  | group :: rest =>
    (cursor.after group).sliceFrom? cursor.offset :: (cursor.after group).slices rest

theorem HasRead.slices {cursor : Cursor} {text before : List Char}
    (h : cursor.HasRead text before) (groups : List (List Operation)) :
    ∃ parts : List (List Char), cursor.slices groups = parts.map some
      ∧ parts.flatten = cursor.taken groups.flatten := by
  induction groups generalizing cursor before with
  | nil => exact ⟨[], rfl, rfl⟩
  | cons group rest ih =>
    obtain ⟨parts, hparts, hflatten⟩ := ih (h.after group)
    refine ⟨cursor.taken group :: parts, ?_, ?_⟩
    · rw [Cursor.slices, h.sliceFrom?_after, hparts, List.map_cons]
    · rw [List.flatten_cons, List.flatten_cons, hflatten, taken_append]

/-- **The accounts of a cursor agree after every run.** Let a cursor start at the start of a source
    of fewer than `2 ^ 32` characters and perform any operations. What they have read, and then what
    is still to be read, make up the source. The offset is the size of what was read, in bytes, and
    the position counts its line feeds and the characters since the last one, neither of them cut
    off. Only an advance changes the cursor, and not at the end of the source; everywhere else it
    reads the next character and moves to a later position. So cursors at the same position have
    read the same. There is a slice exactly from the character boundaries of the source up to the
    offset, and it holds what was read since then; slices from one recorded offset to the next add
    up to what was read. -/
theorem after_accounts (source : String) (hsize : source.toList.length < UInt32.size) :
    let reached (operations : List Operation) : Cursor := (ofString source).after operations
    let read (operations : List Operation) : List Char := (ofString source).taken operations
    (∀ operations,
      (reached operations).consumed = read operations
      ∧ read operations ++ (reached operations).rest = source.toList
      ∧ (reached operations).offset = (String.ofList (read operations)).utf8ByteSize
      ∧ (reached operations).position.line.toNat = (read operations).count '\n'
      ∧ (reached operations).position.character.toNat
        = (Text.lastLine (read operations)).length)
    ∧ (∀ operations operation, operation ≠ .advance →
      ((reached operations).perform operation).2 = reached operations)
    ∧ (∀ operations, (reached operations).rest = [] →
      (reached operations).advance = (none, reached operations))
    ∧ (∀ operations c rest, (reached operations).rest = c :: rest →
      (reached operations).advance.1 = some c
      ∧ (reached operations).position < (reached operations).advance.2.position)
    ∧ (∀ operations others, (reached operations).position = (reached others).position →
      read operations = read others)
    ∧ (∀ operations start,
      ((reached operations).sliceFrom? start).isSome = true
        ↔ start ≤ (reached operations).offset ∧ (String.Pos.Raw.mk start).IsValid source)
    ∧ (∀ operations start part, (reached operations).sliceFrom? start = some part
      ↔ ∃ lead, read operations = lead ++ part ∧ (String.ofList lead).utf8ByteSize = start)
    ∧ (∀ operations more, (reached (operations ++ more)).sliceFrom? (reached operations).offset
      = some ((reached operations).taken more))
    ∧ (∀ groups, ∃ parts : List (List Char), (ofString source).slices groups = parts.map some
      ∧ parts.flatten = read groups.flatten) := by
  intro reached read
  have hread : ∀ operations, (reached operations).HasRead source.toList (read operations) :=
    (hasRead_ofString source).after
  simp only [Text.utf8ByteSize_ofList]
  refine ⟨?_, ?_, ?_, ?_, ?_, ?_, ?_, ?_, ?_⟩
  · intro operations
    have hlength := (hread operations).length_lt hsize
    refine ⟨(hread operations).consumed_eq, (hread operations).append_rest,
      (hread operations).offset_eq, ?_, ?_⟩
    · rw [(hread operations).position_eq, Position.toNat_line_after hlength]
    · rw [(hread operations).position_eq, Position.toNat_character_after hlength]
  · intro operations operation hoperation
    exact (perform_of_ne_advance hoperation _).2
  · intro operations hrest
    rw [advance, hrest]
  · intro operations c rest hrest
    have hnext : (reached operations).advance.1 = some c := by rw [advance, hrest]
    exact ⟨hnext, (hread operations).position_lt hsize hnext⟩
  · intro operations others
    exact (hread operations).eq_of_position_eq (hread others) hsize
  · intro operations start
    exact (hread operations).isSome_sliceFrom?_iff
  · intro operations start part
    exact (hread operations).sliceFrom?_eq_some_iff
  · intro operations more
    show ((ofString source).after (operations ++ more)).sliceFrom? _ = _
    rw [after_append]
    exact (hread operations).sliceFrom?_after more
  · exact (hasRead_ofString source).slices

/-- After `é`, a line feed and `<` the cursor has read four bytes and stands on the second line.
    There is a slice after the `é`, but none from inside it or from past the cursor. -/
theorem after_accounts_accent :
    let source := "é\n<<"
    let operations : List Operation := [.advance, .peek, .advance, .sliceFrom 0, .advance]
    let cursor := (ofString source).after operations
    source.toList.length < UInt32.size
      ∧ cursor.offset = 4
      ∧ cursor.position = ⟨1, 1⟩
      ∧ cursor.sliceFrom? 2 = some ['\n', '<']
      ∧ ¬ (String.Pos.Raw.mk 1).IsValid source
      ∧ ¬ (cursor.sliceFrom? 5).isSome = true := by
  intro source operations cursor
  obtain ⟨hcounts, -, -, -, -, hboundary, hslice, -, -⟩ := after_accounts source (by decide)
  obtain ⟨-, -, hoffset, hline, hcharacter⟩ := hcounts operations
  have hfour : cursor.offset = 4 := hoffset.trans (by decide +kernel)
  refine ⟨by decide, hfour, ?_, ?_, ?_, ?_⟩
  · exact Position.eq_iff.2 ⟨hline.trans (by decide +kernel), hcharacter.trans (by decide +kernel)⟩
  · exact (hslice operations 2 _).2 ⟨['é'], by decide +kernel, by decide +kernel⟩
  · intro hvalid
    have hsome : (cursor.sliceFrom? 1).isSome = true :=
      (hboundary operations 1).2 ⟨by rw [hfour]; decide, hvalid⟩
    exact absurd hsome (by decide +kernel)
  · intro hsome
    have hle : 5 ≤ cursor.offset := ((hboundary operations 5).1 hsome).1
    rw [hfour] at hle
    exact absurd hle (by decide)

end Cursor

end PipelineLint
