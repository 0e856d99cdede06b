import PipelineLint.Proofs.Positions
import PipelineLint.Text.Lines

set_option autoImplicit false

/-! # Byte offsets of positions

`Text.byteOffset` finds a position by passing whole lines and then characters of the content of one
line. For the position after a first part of a source it gives the bytes of the lines before, and
then of the last line as far as the line's content goes (`byteOffset_after`). So the offset is the
number of bytes before the position, unless the position lies in the run of carriage returns at the
end of its line (`byteOffset_after_eq_iff`): a character next to the position that is no line end
rules that out (`byteOffset_after_concat`, `byteOffset_after_of_cons`).

A slice between two offsets exists exactly if first parts of the text end at both, and is what
stands between them (`sliceBytes?_eq_some_iff`). -/

namespace PipelineLint.Text

/-! ## Finding a line -/

theorem EndsLine.of_cons {c : Char} {lines : List Char} (h : EndsLine (c :: lines)) :
    EndsLine lines := by
  rcases h with h | ⟨_ | ⟨d, init⟩, h⟩
  · exact absurd h (List.cons_ne_nil _ _)
  · exact Or.inl (List.cons.inj h).2
  · exact Or.inr ⟨init, (List.cons.inj h).2⟩

/-- A text that ends with a line feed and does not start with one has a line feed after its first
    character. -/
theorem EndsLine.count_pos {c : Char} {lines : List Char} (h : EndsLine (c :: lines))
    (hc : c ≠ '\n') : 0 < lines.count '\n' := by
  rcases h with h | ⟨_ | ⟨d, init⟩, h⟩
  · exact absurd h (List.cons_ne_nil _ _)
  · exact absurd (List.cons.inj h).1 hc
  · rw [(List.cons.inj h).2]
    simp

/-- After as many line feeds as its whole lines have, a text goes on with what follows them. There
    is no such line if nothing follows. -/
theorem lineStart?_append {lines : List Char} (h : EndsLine lines) (passed : Nat)
    (rest : List Char) :
    lineStart? (lines.count '\n') passed (lines ++ rest)
      = if rest = [] then none else some (passed + byteLength lines, rest) := by
  induction lines generalizing passed with
  | nil => cases rest <;> simp [lineStart?]
  | cons c lines ih =>
    by_cases hc : c = '\n'
    · subst hc
      rw [List.count_cons_self, List.cons_append, lineStart?, if_pos rfl, ih h.of_cons,
        byteLength_cons, Nat.add_assoc]
    · -- a line feed is still to come, so the line that is looked for is not this one
      obtain ⟨n, hn⟩ := Nat.exists_eq_add_one.2 (h.count_pos hc)
      have hcount : (c :: lines).count '\n' = n + 1 := by
        rw [List.count_cons_of_ne hc, hn]
      rw [hcount, List.cons_append, lineStart?, if_neg hc, ← hn, ih h.of_cons, byteLength_cons,
        Nat.add_assoc]

/-! ## First parts of a text -/

theorem byteLength_le_byteLength {text whole : List Char} (h : text <+: whole) :
    byteLength text ≤ byteLength whole := by
  obtain ⟨more, rfl⟩ := h
  rw [byteLength_append]
  omega

theorem eq_of_byteLength_le {text whole : List Char} (h : text <+: whole)
    (hle : byteLength whole ≤ byteLength text) : text = whole := by
  obtain ⟨more, rfl⟩ := h
  cases more with
  | nil => rw [List.append_nil]
  | cons c more =>
    have hsize := Char.utf8Size_pos c
    rw [byteLength_append, byteLength_cons] at hle
    omega

/-- Of two first parts of a text, the one with no more bytes is a first part of the other one. -/
theorem prefix_iff_byteLength_le {text other whole : List Char} (h : text <+: whole)
    (hother : other <+: whole) : text <+: other ↔ byteLength text ≤ byteLength other := by
  refine ⟨byteLength_le_byteLength, fun hle => ?_⟩
  rcases List.prefix_or_prefix_of_prefix h hother with hpre | hpre
  · exact hpre
  · exact eq_of_byteLength_le hpre hle ▸ List.prefix_rfl

theorem byteLength_take_length {text other whole : List Char} (h : text <+: whole)
    (hother : other <+: whole) :
    byteLength (other.take text.length) = min (byteLength text) (byteLength other) := by
  rcases List.prefix_or_prefix_of_prefix h hother with hpre | hpre
  · rw [← List.prefix_iff_eq_take.1 hpre, Nat.min_eq_left (byteLength_le_byteLength hpre)]
  · rw [List.take_of_length_le hpre.length_le, Nat.min_eq_right (byteLength_le_byteLength hpre)]

/-! ## Slices -/

/-- What is left after `n` bytes is what follows a first part of `n` bytes. -/
theorem dropBytes?_eq_some_iff {text rest : List Char} {n : Nat} :
    dropBytes? text n = some rest ↔ ∃ lead, text = lead ++ rest ∧ byteLength lead = n := by
  constructor
  · intro h
    fun_induction dropBytes? text n with
    | case1 text =>
      obtain rfl := Option.some.inj h
      exact ⟨[], rfl, rfl⟩
    | case2 n => exact absurd h (by simp)
    | case3 c text n hsize ih =>
      obtain ⟨lead, rfl, hlead⟩ := ih h
      refine ⟨c :: lead, rfl, ?_⟩
      rw [byteLength_cons, hlead]
      omega
    | case4 c text n hsize => exact absurd h (by simp)
  · rintro ⟨lead, rfl, rfl⟩
    exact dropBytes?_append lead rest

theorem sliceBytes?_append (before part more : List Char) :
    sliceBytes? (before ++ part ++ more) (byteLength before) (byteLength (before ++ part))
      = some part := by
  have hle : byteLength before ≤ byteLength (before ++ part) := by
    rw [byteLength_append]
    omega
  have hrest : dropBytes? (before ++ part ++ more) (byteLength before) = some (part ++ more) := by
    rw [List.append_assoc, dropBytes?_append]
  rw [sliceBytes?, if_pos hle, hrest, dropBytes?_append]
  simp

/-- A slice is what stands between a first part of `start` bytes and the end of one of `stop`
    bytes. -/
theorem sliceBytes?_eq_some_iff {text part : List Char} {start stop : Nat} :
    sliceBytes? text start stop = some part
      ↔ ∃ lead more, text = lead ++ part ++ more ∧ byteLength lead = start
        ∧ byteLength (lead ++ part) = stop := by
  constructor
  · intro h
    unfold sliceBytes? at h
    split at h
    · next hle =>
      obtain ⟨rest, hrest, h'⟩ := Option.bind_eq_some_iff.1 h
      obtain ⟨more, hmore, htake⟩ := Option.bind_eq_some_iff.1 h'
      obtain ⟨lead, rfl, rfl⟩ := dropBytes?_eq_some_iff.1 hrest
      obtain ⟨whole, htext, rfl⟩ := dropBytes?_eq_some_iff.1 hmore
      -- the first part with fewer bytes starts the other one
      have hlead : lead <+: whole :=
        (prefix_iff_byteLength_le (List.prefix_append lead rest)
          (htext ▸ List.prefix_append whole more)).2 hle
      obtain ⟨between, rfl⟩ := hlead
      rw [List.append_assoc, List.append_cancel_left_eq] at htext
      subst htext
      have hpart : between = part := by simpa using htake
      subst hpart
      exact ⟨lead, more, (List.append_assoc lead between more).symm, rfl, rfl⟩
    · exact absurd h (by simp)
  · rintro ⟨lead, more, rfl, rfl, rfl⟩
    exact sliceBytes?_append lead part more

/-! ## The content of a line -/

/-- The content of a line that starts with `text` is that of the whole line. -/
theorem lineContent_append {text : List Char} (h : '\n' ∉ text) (rest : List Char) :
    lineContent (text ++ rest) = (text ++ rest.takeWhile (· != '\n')).rdropWhile (· == '\r') := by
  have hall : ∀ c ∈ text, (c != '\n') = true := by
    intro c hc
    exact bne_iff_ne.2 fun heq => h (heq ▸ hc)
  rw [lineContent, List.takeWhile_append_of_pos hall]
  rfl

theorem lineContent_prefix_self (text : List Char) : lineContent text <+: text :=
  (List.rdropWhile_prefix _ _).trans (List.takeWhile_prefix _)

theorem concat_prefix_rdropWhile {p : Char → Bool} {c : Char} (h : ¬ p c = true)
    (text rest : List Char) : text ++ [c] <+: (text ++ c :: rest).rdropWhile p := by
  induction rest using List.reverseRecOn with
  | nil => exact ⟨[], by rw [List.rdropWhile_concat_neg _ _ _ h, List.append_nil]⟩
  | append_singleton rest d ih =>
    rw [← List.cons_append, ← List.append_assoc, List.rdropWhile_concat]
    split
    · exact ih
    · exact ⟨rest ++ [d], by simp⟩

/-- Dropping from the end cuts into a first part if it drops all that follows and the last character
    of that part. -/
theorem prefix_rdropWhile_append_iff {p : Char → Bool} (text rest : List Char) :
    text <+: (text ++ rest).rdropWhile p
      ↔ ¬ ((∃ c, text.getLast? = some c ∧ p c = true) ∧ ∀ c ∈ rest, p c = true) := by
  by_cases hall : ∀ c ∈ rest, p c = true
  · have hdrop : (text ++ rest).rdropWhile p = text.rdropWhile p := by
      rw [List.rdropWhile, List.reverse_append, List.dropWhile_append_of_pos (by simpa using hall)]
      rfl
    rw [hdrop, and_iff_left hall]
    cases text using List.reverseRecOn with
    | nil => simp
    | append_singleton text c =>
      by_cases hc : p c = true
      · have hshort := (List.rdropWhile_prefix p text).length_le
        have hnot : ¬ text ++ [c] <+: text.rdropWhile p := by
          intro hpre
          have hlong := hpre.length_le
          rw [List.length_append, List.length_singleton] at hlong
          omega
        simp [List.rdropWhile_concat_pos _ _ _ hc, hc, hnot]
      · simp [List.rdropWhile_concat_neg _ _ _ hc, hc]
  · obtain ⟨c, hmem, hc⟩ : ∃ c ∈ rest, ¬ p c = true := by simpa using hall
    obtain ⟨lead, trail, rfl⟩ := List.append_of_mem hmem
    have hpre := concat_prefix_rdropWhile hc (text ++ lead) trail
    rw [List.append_assoc, List.append_assoc] at hpre
    exact ⟨fun _ h => hall h.2, fun _ => (List.prefix_append _ _).trans hpre⟩

theorem getLast?_lastLine {text : List Char} {c : Char} (h : c ≠ '\n') :
    (lastLine text).getLast? = some c ↔ text.getLast? = some c := by
  cases text using List.reverseRecOn with
  | nil => rfl
  | append_singleton text last =>
    rw [lastLine_concat, List.getLast?_concat]
    by_cases hlast : last = '\n'
    · rw [if_pos hlast, hlast]
      simpa using Ne.symm h
    · rw [if_neg hlast, List.getLast?_concat]

/-! ## Offsets -/

section

variable {text wholes : List Char} (h : text = wholes ++ lastLine text)
include h

theorem count_eq_of_eq_append_lastLine : text.count '\n' = wholes.count '\n' := by
  have hlast : (lastLine text).count '\n' = 0 := List.count_eq_zero.2 (not_mem_lastLine text)
  rw [h, List.count_append, hlast, Nat.add_zero]

theorem byteLength_eq_of_eq_append_lastLine :
    byteLength text = byteLength wholes + byteLength (lastLine text) := by
  rw [← byteLength_append, ← h]

theorem append_eq_of_eq_append_lastLine (rest : List Char) :
    text ++ rest = wholes ++ (lastLine text ++ rest) := by
  rw [← List.append_assoc, ← h]

end

/-- The offset of the position after `before`: the bytes of the lines before it, and those of its
    last line as far as the content of that line goes. -/
theorem byteOffset_after {before : List Char} (hsize : before.length < UInt32.size)
    (rest : List Char) :
    ∃ wholes, EndsLine wholes ∧ before = wholes ++ lastLine before
      ∧ byteOffset (before ++ rest) (.after before)
        = byteLength wholes
          + min (byteLength (lastLine before))
            (byteLength (lineContent (lastLine before ++ rest))) := by
  obtain ⟨wholes, hwholes, hbefore⟩ := exists_append_lastLine before
  refine ⟨wholes, hwholes, hbefore, ?_⟩
  rw [byteOffset, Position.toNat_line_after hsize, Position.toNat_character_after hsize,
    count_eq_of_eq_append_lastLine hbefore, append_eq_of_eq_append_lastLine hbefore,
    lineStart?_append hwholes]
  -- a line that is not there is empty, so the position is at the end of the source
  by_cases hnil : lastLine before ++ rest = []
  · rw [if_pos hnil, hnil, List.append_nil]
    simp [lineContent, dropEndWhile]
  · rw [if_neg hnil, Nat.zero_add]
    simp only [byteLength_take_length (List.prefix_append _ rest) (lineContent_prefix_self _)]

/-- The offset of the position after `before` is the number of bytes before it, unless `before` stops
    among the carriage returns at the end of a line. -/
theorem byteOffset_after_eq_iff {before : List Char} (hsize : before.length < UInt32.size)
    (rest : List Char) :
    byteOffset (before ++ rest) (.after before) = byteLength before
      ↔ ¬ (before.getLast? = some '\r' ∧ ∀ c ∈ rest.takeWhile (· != '\n'), c = '\r') := by
  have hreaches : byteOffset (before ++ rest) (.after before) = byteLength before
      ↔ lastLine before <+: lineContent (lastLine before ++ rest) := by
    obtain ⟨wholes, -, hbefore, hoffset⟩ := byteOffset_after hsize rest
    rw [hoffset, byteLength_eq_of_eq_append_lastLine hbefore,
      prefix_iff_byteLength_le (List.prefix_append _ rest) (lineContent_prefix_self _)]
    omega
  rw [hreaches, lineContent_append (not_mem_lastLine before), prefix_rdropWhile_append_iff]
  simp only [beq_iff_eq, exists_eq_right, getLast?_lastLine (show '\r' ≠ '\n' by decide)]

/-- A position before a character that is no line end has the offset of the bytes before it. -/
theorem byteOffset_after_of_cons {before : List Char} (hsize : before.length < UInt32.size)
    {c : Char} (hfeed : c ≠ '\n') (hreturn : c ≠ '\r') (rest : List Char) :
    byteOffset (before ++ c :: rest) (.after before) = byteLength before := by
  rw [byteOffset_after_eq_iff hsize]
  rintro ⟨-, hreturns⟩
  exact hreturn (hreturns c (by simp [hfeed]))

/-- A position after a character that is no carriage return has the offset of the bytes before it. -/
theorem byteOffset_after_concat {before : List Char} {c : Char}
    (hsize : (before ++ [c]).length < UInt32.size) (hreturn : c ≠ '\r') (rest : List Char) :
    byteOffset (before ++ [c] ++ rest) (.after (before ++ [c])) = byteLength (before ++ [c]) := by
  rw [byteOffset_after_eq_iff hsize, List.getLast?_concat]
  rintro ⟨hlast, -⟩
  exact hreturn (Option.some.inj hlast)

end PipelineLint.Text
