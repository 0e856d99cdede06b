import Mathlib.Data.List.SplitBy
import PipelineLint.Proofs.ByteOffsets

set_option autoImplicit false

/-! # Offsets line by line

The lines of a source, each with the line feed that ends it, and the byte offsets at which they
start and at which their contents end. `Text.byteOffset` never forms these lines; it agrees with
them all the same (`byteOffset_eq`).

So the offset of a position lies in the content of its line, which makes offsets grow with
positions, within a line and across lines, and keeps them between characters
(`byteOffset_ordered`). For the positions that a cursor meets, the offset is the one that the cursor
has counted, cut off where the content of the line ends (`byteOffset_position`). -/

namespace PipelineLint

namespace Text

/-! ## The lines of a text -/

/-- The lines of a text, each with its line feed. Nothing is a line after a final line feed or in an
    empty text. -/
def lines (text : List Char) : List (List Char) :=
  text.splitBy fun c _ => c != '\n'

/-- A line without the carriage returns and line feeds at its end. -/
def content (line : List Char) : List Char :=
  line.rdropWhile fun c => c == '\r' || c == '\n'

/-- The byte offset at which a line starts, and that of the end of the text for a line that does not
    exist. -/
def lineOffset (text : List Char) (n : Nat) : Nat :=
  byteLength ((lines text).take n).flatten

/-- The byte offset at which the content of a line ends, and that of the end of the text for a line
    that does not exist. -/
def contentEnd (text : List Char) (n : Nat) : Nat :=
  match (lines text)[n]? with
  | some line => lineOffset text n + byteLength (content line)
  | none => byteLength text

theorem flatten_lines (text : List Char) : (lines text).flatten = text :=
  List.flatten_splitBy _ _

/-- A text is one line if no line feed stands before its last character. -/
theorem lines_concat_of_not_mem {line : List Char} {last : Char} (h : '\n' ∉ line) :
    lines (line ++ [last]) = [line ++ [last]] := by
  have hfeed : ∀ c ∈ line, (c != '\n') = true := by
    intro c hc
    exact bne_iff_ne.2 fun heq => h (heq ▸ hc)
  apply List.splitBy_of_isChain (by simp)
  apply List.Pairwise.isChain
  rw [List.pairwise_append]
  exact ⟨List.pairwise_of_forall_mem_list fun c hc _ _ => hfeed c hc, List.pairwise_singleton _ _,
    fun c hc _ _ => hfeed c hc⟩

theorem lines_of_not_mem {line : List Char} (hne : line ≠ []) (h : '\n' ∉ line) :
    lines line = [line] := by
  rw [← List.dropLast_append_getLast hne]
  exact lines_concat_of_not_mem fun hmem => h (List.dropLast_subset line hmem)

theorem lines_append_feed {line : List Char} (h : '\n' ∉ line) (more : List Char) :
    lines (line ++ '\n' :: more) = (line ++ ['\n']) :: lines more := by
  have hcut : lines (line ++ ['\n'] ++ more) = lines (line ++ ['\n']) ++ lines more := by
    apply List.splitBy_append
    intro c hc d _
    obtain rfl : '\n' = c := by simpa using hc
    rfl
  rw [List.append_cons, hcut, lines_concat_of_not_mem h, List.singleton_append]

/-- A text is empty, a line without a line feed, or a line with one before another text. -/
theorem induction_lines {motive : List Char → Prop} (text : List Char) (nil : motive [])
    (last : ∀ line, line ≠ [] → '\n' ∉ line → motive line)
    (feed : ∀ line more, '\n' ∉ line → motive more → motive (line ++ '\n' :: more)) :
    motive text := by
  by_cases hfeed : '\n' ∈ text
  · obtain ⟨line, more, htext, hline⟩ := List.eq_append_cons_of_mem hfeed
    rw [htext]
    exact feed line more hline (induction_lines more nil last feed)
  · by_cases hne : text = []
    · rw [hne]
      exact nil
    · exact last text hne hfeed
termination_by text.length
decreasing_by
  rw [htext, List.length_append, List.length_cons]
  omega

theorem lineOffset_succ_append_feed {line : List Char} (h : '\n' ∉ line) (more : List Char)
    (n : Nat) :
    lineOffset (line ++ '\n' :: more) (n + 1) = byteLength (line ++ ['\n']) + lineOffset more n := by
  rw [lineOffset, lines_append_feed h, List.take_succ_cons, List.flatten_cons, byteLength_append]
  rfl

/-! ## Finding a line by passing the lines before it -/

theorem lineStart?_zero {text : List Char} (h : text ≠ []) (passed : Nat) :
    lineStart? 0 passed text = some (passed, text) := by
  cases text with
  | nil => exact absurd rfl h
  | cons c rest => rfl

theorem lineStart?_succ_of_not_mem {line : List Char} (h : '\n' ∉ line) (n passed : Nat) :
    lineStart? (n + 1) passed line = none := by
  induction line generalizing passed with
  | nil => rfl
  | cons c line ih =>
    rw [List.mem_cons, not_or] at h
    rw [lineStart?, if_neg (Ne.symm h.1), ih h.2]

theorem lineStart?_succ_append_feed {line : List Char} (h : '\n' ∉ line) (more : List Char)
    (n passed : Nat) :
    lineStart? (n + 1) passed (line ++ '\n' :: more)
      = lineStart? n (passed + byteLength (line ++ ['\n'])) more := by
  induction line generalizing passed with
  | nil => rw [List.nil_append, lineStart?, if_pos rfl]; rfl
  | cons c line ih =>
    rw [List.mem_cons, not_or] at h
    rw [List.cons_append, lineStart?, if_neg (Ne.symm h.1), ih h.2, List.cons_append,
      byteLength_cons, Nat.add_assoc]

theorem content_of_not_mem {line : List Char} (h : '\n' ∉ line) :
    content line = line.rdropWhile (· == '\r') := by
  induction line using List.reverseRecOn with
  | nil => rfl
  | append_singleton line c ih =>
    rw [List.mem_append, not_or, List.mem_singleton] at h
    have hc : (c == '\n') = false := beq_false_of_ne (Ne.symm h.2)
    rw [content, List.rdropWhile_concat, List.rdropWhile_concat, hc, Bool.or_false, ← ih h.1,
      content]

theorem lineContent_of_not_mem {line : List Char} (h : '\n' ∉ line) :
    lineContent line = content line := by
  have hline := lineContent_append h []
  rw [List.append_nil, List.takeWhile_nil, List.append_nil] at hline
  rw [hline, content_of_not_mem h]

theorem lineContent_append_feed {line : List Char} (h : '\n' ∉ line) (more : List Char) :
    lineContent (line ++ '\n' :: more) = content (line ++ ['\n']) := by
  have hline := lineContent_append h ('\n' :: more)
  rw [List.takeWhile_cons, if_neg (by decide), List.append_nil] at hline
  rw [hline, content, List.rdropWhile_concat_pos _ _ _ (by decide), ← content,
    content_of_not_mem h]

/-- Passing lines leads to the same line as counting them: to its offset and its content, or to
    nothing if there are not that many. -/
theorem lineStart?_eq (text : List Char) (n passed : Nat) :
    (lineStart? n passed text).map (fun found => (found.1, lineContent found.2))
      = (lines text)[n]?.map fun line => (passed + lineOffset text n, content line) := by
  induction text using induction_lines generalizing n passed with
  | nil => simp [lineStart?, lines]
  | last line hne h =>
    rw [lines_of_not_mem hne h]
    cases n with
    | zero => simp [lineStart?_zero hne, lineContent_of_not_mem h, lineOffset]
    | succ n => simp [lineStart?_succ_of_not_mem h]
  | feed line more h ih =>
    rw [lines_append_feed h]
    cases n with
    | zero => simp [lineStart?_zero, lineContent_append_feed h, lineOffset]
    | succ n =>
      rw [lineStart?_succ_append_feed h, ih, List.getElem?_cons_succ,
        lineOffset_succ_append_feed h, Nat.add_assoc]

/-- The offset of a position: where its line starts, and the bytes of the content of the line up to
    the position. -/
theorem byteOffset_eq (source : List Char) (p : Position) :
    byteOffset source p = match (lines source)[p.line.toNat]? with
      | some line =>
        lineOffset source p.line.toNat + byteLength ((content line).take p.character.toNat)
      | none => byteLength source := by
  have hfound := lineStart?_eq source p.line.toNat 0
  unfold byteOffset
  cases hline : (lines source)[p.line.toNat]? with
  | none =>
    rw [hline, Option.map_none, Option.map_eq_none_iff] at hfound
    rw [hfound]
  | some line =>
    rw [hline, Option.map_some, Option.map_eq_some_iff] at hfound
    obtain ⟨⟨start, text⟩, hstart, heq⟩ := hfound
    obtain ⟨rfl, hcontent⟩ := Prod.mk.inj heq
    rw [hstart]
    simp only [hcontent, Nat.zero_add]

/-! ## Offsets grow with positions -/

theorem content_prefix_self (line : List Char) : content line <+: line :=
  List.rdropWhile_prefix _ _

theorem flatten_take_prefix_take {m n : Nat} (h : m ≤ n) (text : List Char) :
    ((lines text).take m).flatten <+: ((lines text).take n).flatten := by
  obtain ⟨k, rfl⟩ := Nat.exists_eq_add_of_le h
  rw [List.take_add, List.flatten_append]
  exact List.prefix_append _ _

theorem flatten_take_prefix_self (text : List Char) (n : Nat) :
    ((lines text).take n).flatten <+: text := by
  refine ⟨((lines text).drop n).flatten, ?_⟩
  rw [← List.flatten_append, List.take_append_drop, flatten_lines]

theorem lineOffset_le_lineOffset {m n : Nat} (h : m ≤ n) (text : List Char) :
    lineOffset text m ≤ lineOffset text n :=
  byteLength_le_byteLength (flatten_take_prefix_take h text)

theorem lineOffset_of_not_exists {text : List Char} {n : Nat} (h : (lines text)[n]? = none) :
    lineOffset text n = byteLength text := by
  rw [lineOffset, List.take_of_length_le (List.getElem?_eq_none_iff.1 h), flatten_lines]

theorem flatten_take_succ {text line : List Char} {n : Nat} (h : (lines text)[n]? = some line) :
    ((lines text).take (n + 1)).flatten = ((lines text).take n).flatten ++ line := by
  rw [List.take_add_one, h, List.flatten_append]
  simp

/-- The content of a line ends before the next line starts. -/
theorem contentEnd_le_lineOffset_succ (text : List Char) (n : Nat) :
    contentEnd text n ≤ lineOffset text (n + 1) := by
  unfold contentEnd
  cases hline : (lines text)[n]? with
  | none =>
    have hle := lineOffset_le_lineOffset (Nat.le_add_right n 1) text
    rwa [lineOffset_of_not_exists hline] at hle
  | some line =>
    have hle := byteLength_le_byteLength (content_prefix_self line)
    show lineOffset text n + byteLength (content line) ≤ _
    rw [lineOffset, lineOffset, flatten_take_succ hline, byteLength_append]
    omega

theorem lineOffset_le_byteOffset (source : List Char) (p : Position) :
    lineOffset source p.line.toNat ≤ byteOffset source p := by
  rw [byteOffset_eq]
  cases hline : (lines source)[p.line.toNat]? with
  | none => exact (lineOffset_of_not_exists hline).le
  | some line => exact Nat.le_add_right _ _

theorem byteOffset_le_contentEnd (source : List Char) (p : Position) :
    byteOffset source p ≤ contentEnd source p.line.toNat := by
  rw [byteOffset_eq, contentEnd]
  cases (lines source)[p.line.toNat]? with
  | none => exact Nat.le_refl _
  | some line => exact Nat.add_le_add_left (byteLength_le_byteLength (List.take_prefix _ _)) _

theorem byteOffset_le_byteOffset (source : List Char) {p q : Position} (h : p ≤ q) :
    byteOffset source p ≤ byteOffset source q := by
  rcases Position.le_iff.1 h with hline | ⟨hline, hcharacter⟩
  · calc byteOffset source p
        ≤ contentEnd source p.line.toNat := byteOffset_le_contentEnd source p
      _ ≤ lineOffset source (p.line.toNat + 1) := contentEnd_le_lineOffset_succ source _
      _ ≤ lineOffset source q.line.toNat := lineOffset_le_lineOffset hline source
      _ ≤ byteOffset source q := lineOffset_le_byteOffset source q
  · rw [byteOffset_eq, byteOffset_eq, hline]
    cases (lines source)[q.line.toNat]? with
    | none => exact Nat.le_refl _
    | some line =>
      have htake := List.take_prefix_take_left (l := content line) hcharacter
      exact Nat.add_le_add_left (byteLength_le_byteLength htake) _

/-- Every offset is the number of bytes of a first part of the source. -/
theorem exists_prefix_byteOffset (source : List Char) (p : Position) :
    ∃ before, before <+: source ∧ byteOffset source p = byteLength before := by
  rw [byteOffset_eq]
  cases hline : (lines source)[p.line.toNat]? with
  | none => exact ⟨source, List.prefix_rfl, rfl⟩
  | some line =>
    refine ⟨((lines source).take p.line.toNat).flatten ++ (content line).take p.character.toNat,
      ?_, by rw [byteLength_append]; rfl⟩
    have hcontent : (content line).take p.character.toNat <+: line :=
      (List.take_prefix _ _).trans (content_prefix_self line)
    have hlines := flatten_take_prefix_self source (p.line.toNat + 1)
    rw [flatten_take_succ hline] at hlines
    exact (List.prefix_append_right_inj _ |>.2 hcontent).trans hlines

/-! ## Bytes of strings -/

theorem utf8ByteSize_ofList (text : List Char) :
    (String.ofList text).utf8ByteSize = byteLength text := by
  induction text with
  | nil => rfl
  | cons c text ih =>
    rw [← List.singleton_append, String.ofList_append, String.utf8ByteSize_append, ih]
    simp

/-- **Offsets are ordered and valid.** A position that comes before another one has no larger
    offset, wherever in the source or outside it the two lie. No offset is past the end of the
    source or inside a character, and on a line that exists it lies between the start of the line and
    the end of its content. -/
theorem byteOffset_ordered (source : String) :
    (∀ p q : Position, p ≤ q → byteOffset source.toList p ≤ byteOffset source.toList q)
    ∧ ∀ p : Position,
      byteOffset source.toList p ≤ source.utf8ByteSize
      ∧ (String.Pos.Raw.mk (byteOffset source.toList p)).IsValid source
      ∧ ∀ line, (lines source.toList)[p.line.toNat]? = some line →
        lineOffset source.toList p.line.toNat ≤ byteOffset source.toList p
        ∧ byteOffset source.toList p
          ≤ lineOffset source.toList p.line.toNat + byteLength (content line) := by
  refine ⟨fun p q => byteOffset_le_byteOffset source.toList, fun p => ?_⟩
  obtain ⟨before, ⟨rest, hsource⟩, hoffset⟩ := exists_prefix_byteOffset source.toList p
  have hvalid : (String.Pos.Raw.mk (byteOffset source.toList p)).IsValid source := by
    rw [String.Pos.Raw.isValid_iff_exists_append]
    refine ⟨String.ofList before, String.ofList rest, ?_, ?_⟩
    · rw [← String.ofList_append, hsource, String.ofList_toList]
    · rw [hoffset, ← utf8ByteSize_ofList]
      rfl
  refine ⟨hvalid.le_utf8ByteSize, hvalid, fun line hline => ?_⟩
  have hend := byteOffset_le_contentEnd source.toList p
  rw [contentEnd, hline] at hend
  exact ⟨lineOffset_le_byteOffset source.toList p, hend⟩

/-! ## The positions of a cursor -/

/-- The line after whole lines is the one that the rest of the text starts with. -/
theorem getElem?_lines_append {wholes : List Char} (h : EndsLine wholes) (rest : List Char) :
    (lines (wholes ++ rest))[wholes.count '\n']?.map
        (fun line => (lineOffset (wholes ++ rest) (wholes.count '\n'), content line))
      = if rest = [] then none else some (byteLength wholes, lineContent rest) := by
  have hfound := lineStart?_eq (wholes ++ rest) (wholes.count '\n') 0
  rw [lineStart?_append h] at hfound
  simp only [Nat.zero_add] at hfound
  rw [← hfound]
  split <;> rfl

theorem getElem?_lines_append_eq_none_iff {wholes : List Char} (h : EndsLine wholes)
    (rest : List Char) : (lines (wholes ++ rest))[wholes.count '\n']? = none ↔ rest = [] := by
  have hline := getElem?_lines_append h rest
  rw [← Option.map_eq_none_iff, hline]
  split <;> simp [*]

theorem contentEnd_append {wholes : List Char} (h : EndsLine wholes) (rest : List Char) :
    contentEnd (wholes ++ rest) (wholes.count '\n')
      = byteLength wholes + byteLength (lineContent rest) := by
  have hline := getElem?_lines_append h rest
  unfold contentEnd
  cases hfound : (lines (wholes ++ rest))[wholes.count '\n']? with
  | none =>
    rw [(getElem?_lines_append_eq_none_iff h rest).1 hfound, List.append_nil]
    rfl
  | some line =>
    rw [hfound, Option.map_some] at hline
    split at hline
    · nomatch hline
    · obtain ⟨hoffset, hcontent⟩ := Prod.mk.inj (Option.some.inj hline)
      rw [← hoffset, ← hcontent]

theorem byteOffset_after_eq_min {before : List Char} (hsize : before.length < UInt32.size)
    (rest : List Char) :
    byteOffset (before ++ rest) (.after before)
      = min (byteLength before) (contentEnd (before ++ rest) (before.count '\n')) := by
  obtain ⟨wholes, hwholes, hbefore, hoffset⟩ := byteOffset_after hsize rest
  have hend : contentEnd (before ++ rest) (before.count '\n')
      = byteLength wholes + byteLength (lineContent (lastLine before ++ rest)) := by
    rw [count_eq_of_eq_append_lastLine hbefore, append_eq_of_eq_append_lastLine hbefore,
      contentEnd_append hwholes]
  rw [hoffset, hend, byteLength_eq_of_eq_append_lastLine hbefore, Nat.add_min_add_left]

theorem EndsLine.lastLine_eq_nil {text : List Char} (h : EndsLine text) : lastLine text = [] := by
  rcases h with rfl | ⟨init, rfl⟩
  · rfl
  · rw [lastLine_concat, if_pos rfl]

/-- The line that a text stops on does not exist if nothing follows, in it or after it. -/
theorem getElem?_lines_count_eq_none_iff (before rest : List Char) :
    (lines (before ++ rest))[before.count '\n']? = none ↔ rest = [] ∧ EndsLine (before ++ rest) := by
  obtain ⟨wholes, hwholes, hbefore⟩ := exists_append_lastLine before
  rw [count_eq_of_eq_append_lastLine hbefore, append_eq_of_eq_append_lastLine hbefore,
    getElem?_lines_append_eq_none_iff hwholes, List.append_eq_nil_iff]
  constructor
  · rintro ⟨hlast, rfl⟩
    rw [hlast, List.append_nil, List.append_nil]
    exact ⟨rfl, hwholes⟩
  · rintro ⟨rfl, hends⟩
    rw [List.append_nil, ← hbefore] at hends
    exact ⟨hends.lastLine_eq_nil, rfl⟩

end Text

/-- Whether a cursor has just read a carriage return at the end of a line: nothing but carriage
    returns is left of the line. -/
def Cursor.InLineEnd (cursor : Cursor) : Prop :=
  cursor.consumed.getLast? = some '\r' ∧ ∀ c ∈ cursor.rest.takeWhile (· != '\n'), c = '\r'

namespace Text

/-- **Offsets invert positions.** After `k` characters of a source of fewer than `2 ^ 32` characters,
    the position of a cursor has the offset that the cursor has counted, but no more than the end of
    the content of its line. The line does not exist, and its content ends with the source, exactly
    if the cursor is at the end of a source that is empty or ends with a line feed. The two offsets
    are equal unless the cursor has just read one of the carriage returns at the end of its line. -/
theorem byteOffset_position (source : List Char) (hsize : source.length < UInt32.size) (k : Nat) :
    let cursor := ((Cursor.ofList source).advanceTimes k).2
    let line := cursor.position.line.toNat
    byteOffset source cursor.position = min cursor.offset (contentEnd source line)
    ∧ ((lines source)[line]? = none ↔ cursor.rest = [] ∧ EndsLine source)
    ∧ (byteOffset source cursor.position = cursor.offset ↔ ¬ cursor.InLineEnd) := by
  intro cursor line
  have hcursor : cursor = _ := Cursor.advanceTimes_ofList source k
  have hsource : source.take k ++ source.drop k = source := List.take_append_drop k source
  have hbefore : (source.take k).length < UInt32.size :=
    (List.take_prefix k source).length_le.trans_lt hsize
  have hline : line = (source.take k).count '\n' := by
    show cursor.position.line.toNat = _
    rw [hcursor, Position.toNat_line_after hbefore]
  have hmin := byteOffset_after_eq_min hbefore (source.drop k)
  have hnone := getElem?_lines_count_eq_none_iff (source.take k) (source.drop k)
  have hsame := byteOffset_after_eq_iff hbefore (source.drop k)
  rw [hsource] at hmin hnone hsame
  have hconsumed : cursor.consumed = source.take k := Cursor.consumed_advanceTimes_ofList source k
  rw [Cursor.InLineEnd, hconsumed, hline, hcursor]
  exact ⟨hmin, hnone, hsame⟩

/-- After `é` and the first of two carriage returns the cursor has read three bytes, but the content
    of the line ends after two; after the line feed nothing is lost again. -/
theorem byteOffset_position_returns :
    let source := "é\r\r\n".toList
    let cursor (k : Nat) := ((Cursor.ofList source).advanceTimes k).2
    source.length < UInt32.size
    ∧ (cursor 2).offset = 3
    ∧ byteOffset source (cursor 2).position = 2
    ∧ byteOffset source (cursor 4).position = (cursor 4).offset := by
  intro source cursor
  obtain ⟨hmin, -, -⟩ := byteOffset_position source (by decide) 2
  obtain ⟨-, -, hsame⟩ := byteOffset_position source (by decide) 4
  refine ⟨by decide, by decide, hmin.trans (by decide), hsame.2 ?_⟩
  rintro ⟨hlast, -⟩
  exact absurd hlast (by decide)

end Text

end PipelineLint
