import Mathlib.Order.Defs.LinearOrder
import Mathlib.Data.List.DropRight
import PipelineLint.Cursor

set_option autoImplicit false

/-! # Positions after a text

A cursor counts lines and characters as it reads. `Position.after` says what it should have counted
by the time it has read a text: the line feeds in it, and the characters since the last one. The two
agree (`advanceBy_after`), and below `2 ^ 32` characters neither count is cut off
(`toNat_line_after`, `toNat_character_after`).

Positions are in linear order, line before character; `Position.lt_iff` and `Position.le_iff` turn
comparisons into arithmetic. -/

namespace PipelineLint

/-! ## The last line of a text -/

namespace Text

/-- The characters of a text since its last line feed. -/
def lastLine (text : List Char) : List Char :=
  text.rtakeWhile (· != '\n')

@[simp] theorem lastLine_nil : lastLine [] = [] := rfl

/-- A line feed starts a new last line, and any other character goes on with it. -/
theorem lastLine_concat (text : List Char) (c : Char) :
    lastLine (text ++ [c]) = if c = '\n' then [] else lastLine text ++ [c] := by
  by_cases h : c = '\n'
  · simp [lastLine, h]
  · simp [lastLine, h]

/-- Text without a line feed goes on with the last line. -/
theorem lastLine_append_of_not_mem (text : List Char) {more : List Char} (h : '\n' ∉ more) :
    lastLine (text ++ more) = lastLine text ++ more := by
  induction more using List.reverseRecOn with
  | nil => simp
  | append_singleton more c ih =>
    simp only [List.mem_append, List.mem_singleton, not_or] at h
    rw [← List.append_assoc, lastLine_concat, if_neg (Ne.symm h.2), ih h.1, List.append_assoc]

/-- After a line feed, what stands before it does not matter to the last line. -/
theorem lastLine_append_of_mem (text : List Char) {more : List Char} (h : '\n' ∈ more) :
    lastLine (text ++ more) = lastLine more := by
  induction more using List.reverseRecOn with
  | nil => simp at h
  | append_singleton more c ih =>
    rw [← List.append_assoc, lastLine_concat, lastLine_concat]
    by_cases hc : c = '\n'
    · rw [if_pos hc, if_pos hc]
    · have hmore : '\n' ∈ more := by
        rcases List.mem_append.1 h with h | h
        · exact h
        · exact absurd (List.mem_singleton.1 h).symm hc
      rw [if_neg hc, if_neg hc, ih hmore]

theorem length_lastLine_le (text : List Char) : (lastLine text).length ≤ text.length :=
  (List.rtakeWhile_suffix _ _).length_le

theorem not_mem_lastLine (text : List Char) : '\n' ∉ lastLine text := by
  intro h
  simpa using List.mem_rtakeWhile_imp h

/-- Whether a text is made of whole lines: it is empty or ends with a line feed. -/
def EndsLine (lines : List Char) : Prop :=
  lines = [] ∨ ∃ init, lines = init ++ ['\n']

/-- A text is the whole lines before its last line, and its last line. -/
theorem exists_append_lastLine (text : List Char) :
    ∃ lines, EndsLine lines ∧ text = lines ++ lastLine text := by
  induction text using List.reverseRecOn with
  | nil => exact ⟨[], Or.inl rfl, rfl⟩
  | append_singleton text c ih =>
    obtain ⟨lines, hlines, htext⟩ := ih
    rw [lastLine_concat]
    by_cases hc : c = '\n'
    · subst hc
      exact ⟨text ++ ['\n'], Or.inr ⟨text, rfl⟩, by simp⟩
    · refine ⟨lines, hlines, ?_⟩
      rw [if_neg hc, ← List.append_assoc, ← htext]

end Text

/-! ## The order of positions -/

namespace Position

theorem lt_iff {p q : Position} :
    p < q ↔ p.line.toNat < q.line.toNat
      ∨ (p.line.toNat = q.line.toNat ∧ p.character.toNat < q.character.toNat) := by
  show p.line < q.line ∨ (p.line = q.line ∧ p.character < q.character) ↔ _
  rw [UInt32.lt_iff_toNat_lt, UInt32.lt_iff_toNat_lt, UInt32.toNat_inj]

theorem le_iff {p q : Position} :
    p ≤ q ↔ p.line.toNat < q.line.toNat
      ∨ (p.line.toNat = q.line.toNat ∧ p.character.toNat ≤ q.character.toNat) := by
  show p.line < q.line ∨ (p.line = q.line ∧ p.character ≤ q.character) ↔ _
  rw [UInt32.lt_iff_toNat_lt, UInt32.le_iff_toNat_le, UInt32.toNat_inj]

theorem eq_iff {p q : Position} :
    p = q ↔ p.line.toNat = q.line.toNat ∧ p.character.toNat = q.character.toNat := by
  obtain ⟨pl, pc⟩ := p
  obtain ⟨ql, qc⟩ := q
  rw [mk.injEq, UInt32.toNat_inj, UInt32.toNat_inj]

instance : LinearOrder Position where
  le_refl p := le_iff.2 (by omega)
  le_trans p q r hpq hqr := by
    rw [le_iff] at *
    omega
  lt_iff_le_not_ge p q := by
    rw [lt_iff, le_iff, le_iff]
    omega
  le_antisymm p q hpq hqp := by
    rw [le_iff] at *
    rw [eq_iff]
    omega
  le_total p q := by
    rw [le_iff, le_iff]
    omega
  toDecidableLE := inferInstance

/-! ## Counting through a text -/

/-- The position after a text that starts at the origin: the line feeds in it, and the characters
    since the last one. -/
def after (text : List Char) : Position where
  line := UInt32.ofNat (text.count '\n')
  character := UInt32.ofNat (Text.lastLine text).length

theorem advance_after (text : List Char) (c : Char) :
    (after text).advance c = after (text ++ [c]) := by
  by_cases h : c = '\n'
  · simp [advance, after, Text.lastLine_concat, h, UInt32.ofNat_add]
  · have hcount : (text ++ [c]).count '\n' = text.count '\n' := by
      simp [List.count_append, h]
    simp [advance, after, Text.lastLine_concat, h, hcount, UInt32.ofNat_add]

theorem advanceBy_after (text more : List Char) :
    (after text).advanceBy more = after (text ++ more) := by
  induction more generalizing text with
  | nil => simp
  | cons c more ih => rw [advanceBy_cons, advance_after, ih, List.append_assoc, List.singleton_append]

theorem origin_advanceBy (text : List Char) : origin.advanceBy text = after text :=
  advanceBy_after [] text

theorem toNat_line_after {text : List Char} (h : text.length < UInt32.size) :
    (after text).line.toNat = text.count '\n' :=
  UInt32.toNat_ofNat_of_lt' (List.count_le_length.trans_lt h)

theorem toNat_character_after {text : List Char} (h : text.length < UInt32.size) :
    (after text).character.toNat = (Text.lastLine text).length :=
  UInt32.toNat_ofNat_of_lt' ((Text.length_lastLine_le text).trans_lt h)

/-- Below `2 ^ 32` characters every further character leads to a later position. -/
theorem after_lt_after_append {text more : List Char} (hmore : more ≠ [])
    (h : (text ++ more).length < UInt32.size) : after text < after (text ++ more) := by
  have htext : text.length < UInt32.size := by
    rw [List.length_append] at h
    omega
  rw [lt_iff, toNat_line_after htext, toNat_line_after h, toNat_character_after htext,
    toNat_character_after h, List.count_append]
  by_cases hfeed : '\n' ∈ more
  · have hcount : 0 < more.count '\n' := List.count_pos_iff.2 hfeed
    omega
  · have hlength : 0 < more.length := List.length_pos_iff.2 hmore
    rw [List.count_eq_zero.2 hfeed, Text.lastLine_append_of_not_mem text hfeed, List.length_append]
    omega

theorem after_le_after {text whole : List Char} (hpre : text <+: whole)
    (hsize : whole.length < UInt32.size) : after text ≤ after whole := by
  obtain ⟨more, rfl⟩ := hpre
  by_cases hmore : more = []
  · rw [hmore, List.append_nil]
  · exact (after_lt_after_append hmore hsize).le

/-- So different first parts of a text end at different positions. -/
theorem eq_of_after_eq_after {text whole : List Char} (hpre : text <+: whole)
    (hsize : whole.length < UInt32.size) (h : after text = after whole) : text = whole := by
  obtain ⟨more, rfl⟩ := hpre
  by_cases hmore : more = []
  · rw [hmore, List.append_nil]
  · have hlt := after_lt_after_append hmore hsize
    rw [← h] at hlt
    exact absurd hlt (lt_irrefl _)

/-- Below `2 ^ 32` characters a text ends on its first line if it has no line feed. -/
theorem line_after_eq_zero_iff {text : List Char} (h : text.length < UInt32.size) :
    (after text).line = 0 ↔ '\n' ∉ text := by
  rw [← UInt32.toNat_inj, toNat_line_after h]
  exact List.count_eq_zero

/-- The position after two texts is that after the second one, moved by the lines of the first one
    and, on the first line only, by its characters. -/
theorem after_append (text more : List Char) (h : (text ++ more).length < UInt32.size) :
    after (text ++ more)
      = (after more).shift (after text).line
          (if (after more).line = 0 then (after text).character else 0) := by
  have hlength : text.length + more.length < UInt32.size := by rwa [← List.length_append]
  have htext : text.length < UInt32.size := by omega
  have hmore : more.length < UInt32.size := by omega
  have hlines : text.count '\n' ≤ text.length := List.count_le_length
  have hlines' : more.count '\n' ≤ more.length := List.count_le_length
  have hlast := Text.length_lastLine_le text
  have hlast' := Text.length_lastLine_le more
  rw [eq_iff, toNat_line_after h, toNat_character_after h, shift, toNat_saturatingAdd,
    toNat_saturatingAdd, toNat_line_after htext, toNat_line_after hmore, List.count_append]
  refine ⟨by omega, ?_⟩
  -- the characters of `text` count only while `more` stays on its last line
  by_cases hfeed : '\n' ∈ more
  · have hline : ¬ (after more).line = 0 := by simpa [line_after_eq_zero_iff hmore] using hfeed
    rw [if_neg hline, Text.lastLine_append_of_mem text hfeed, toNat_character_after hmore,
      UInt32.toNat_zero]
    omega
  · have hline : (after more).line = 0 := (line_after_eq_zero_iff hmore).2 hfeed
    rw [if_pos hline, Text.lastLine_append_of_not_mem text hfeed, List.length_append,
      toNat_character_after hmore, toNat_character_after htext]
    have hwhole : Text.lastLine more = more := by
      simpa using Text.lastLine_append_of_not_mem [] hfeed
    rw [hwhole]
    omega

/-- Where no sum is cut off, different numbers of characters move a position differently. -/
theorem shift_eq_shift_iff {p : Position} {lines m n : UInt32}
    (hm : p.character.toNat + m.toNat < UInt32.size)
    (hn : p.character.toNat + n.toNat < UInt32.size) :
    p.shift lines m = p.shift lines n ↔ m = n := by
  rw [eq_iff, ← UInt32.toNat_inj]
  simp only [shift, toNat_saturatingAdd, true_and]
  omega

/-- Whether neither sum is cut off when a position is moved by so many lines and characters. -/
def ShiftsExactly (p : Position) (lines characters : UInt32) : Prop :=
  p.line.toNat + lines.toNat < UInt32.size ∧ p.character.toNat + characters.toNat < UInt32.size

instance (p : Position) (lines characters : UInt32) :
    Decidable (p.ShiftsExactly lines characters) :=
  inferInstanceAs (Decidable (_ ∧ _))

end Position

/-! ## Where a cursor stands -/

namespace Cursor

theorem advance_eq (cursor : Cursor) :
    cursor.advance.2
      = { cursor with
          rest := cursor.rest.drop 1
          offset := cursor.offset + Text.byteLength (cursor.rest.take 1)
          position := cursor.position.advanceBy (cursor.rest.take 1) } := by
  obtain ⟨source, rest, offset, position⟩ := cursor
  cases rest with
  | nil => simp [advance]
  | cons c rest => simp [advance]

/-- After `n` readings a cursor stands after the next `n` characters, or at the end if there are
    fewer. -/
theorem advanceTimes_eq (n : Nat) (cursor : Cursor) :
    (cursor.advanceTimes n).2
      = { cursor with
          rest := cursor.rest.drop n
          offset := cursor.offset + Text.byteLength (cursor.rest.take n)
          position := cursor.position.advanceBy (cursor.rest.take n) } := by
  fun_induction advanceTimes n cursor with
  | case1 cursor => simp
  | case2 cursor => exact advance_eq cursor
  | case3 n cursor ih =>
    have htimes : n.succ.succ = 1 + (n + 1) := by omega
    have hdrop : cursor.rest.drop n.succ.succ = (cursor.rest.drop 1).drop (n + 1) := by
      rw [htimes, List.drop_drop]
    have htake : cursor.rest.take n.succ.succ
        = cursor.rest.take 1 ++ (cursor.rest.drop 1).take (n + 1) := by
      rw [htimes, ← List.take_add]
    rw [ih, advance_eq, hdrop, htake]
    simp only [Text.byteLength_append, Position.advanceBy_append, Nat.add_assoc]

/-- A cursor that started at the start of a text has counted what it has read. -/
theorem advanceTimes_ofList (text : List Char) (n : Nat) :
    ((ofList text).advanceTimes n).2
      = { source := text
          rest := text.drop n
          offset := Text.byteLength (text.take n)
          position := Position.after (text.take n) } := by
  rw [advanceTimes_eq, ← Position.origin_advanceBy]
  simp only [ofList, Nat.zero_add]
  rfl

theorem consumed_advanceTimes_ofList (text : List Char) (n : Nat) :
    ((ofList text).advanceTimes n).2.consumed = text.take n := by
  rw [advanceTimes_ofList]
  show text.take (text.length - (text.drop n).length) = text.take n
  rw [List.length_drop, List.take_eq_take_iff]
  omega

theorem position_advanceTimes_ofList (text more : List Char) :
    ((ofList (text ++ more)).advanceTimes text.length).2.position = Position.after text := by
  rw [advanceTimes_ofList, List.take_left]

end Cursor

end PipelineLint
