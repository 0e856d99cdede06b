import PipelineLint.Proofs.Placement

set_option autoImplicit false

/-! # Texts put one after another

Reading is compositional. A text that can be read to its end leaves the reader outside every
substitution, as at the start, so what follows is read as if it stood alone; only the positions
count on from the end of the first text (`Position.behind`). A `>` at the seam closes nothing, since
nothing is open there. A `<` at the end of the first text could open a substitution together with
the first character of the second one, and that is the only thing that can go wrong at the seam
(`references_append`). -/

namespace PipelineLint

/-! ## Positions behind another text -/

namespace Position

/-- Where a position of a text stands once another text, which ends at `stop`, is put before it: the
    lines of the other text come before, and on the first line its last characters do. -/
def behind (p stop : Position) : Position :=
  p.shift stop.line (if p.line = 0 then stop.character else 0)

/-- Whether no coordinate is cut off in this. -/
def ExactBehind (p stop : Position) : Prop :=
  p.ShiftsExactly stop.line (if p.line = 0 then stop.character else 0)

theorem after_append_of_prefix {before text part : List Char}
    (hsize : (before ++ text).length < UInt32.size) (hpart : part <+: text) :
    after (before ++ part) = (after part).behind (after before) := by
  apply after_append
  have hlength := hpart.length_le
  rw [List.length_append] at hsize ⊢
  omega

theorem exactBehind_after {before text part : List Char}
    (hsize : (before ++ text).length < UInt32.size) (hpart : part <+: text) :
    (after part).ExactBehind (after before) := by
  have hlength := hpart.length_le
  rw [List.length_append] at hsize
  have hlines : before.count '\n' ≤ before.length := List.count_le_length
  have hlines' : part.count '\n' ≤ part.length := List.count_le_length
  have hlast := Text.length_lastLine_le before
  have hlast' := Text.length_lastLine_le part
  have hcharacters : (if (after part).line = 0 then (after before).character else 0).toNat
      ≤ before.length := by
    split
    · rw [toNat_character_after (by omega)]
      exact hlast
    · exact Nat.zero_le _
  rw [ExactBehind, ShiftsExactly, toNat_line_after (by omega), toNat_line_after (by omega),
    toNat_character_after (by omega)]
  omega

end Position

/-- A range of a text, once another text is put before it. -/
def Range.behind (range : Range) (stop : Position) : Range where
  start := range.start.behind stop
  stop := range.stop.behind stop

namespace Reference

/-- A reference of a text, once another text is put before it. -/
def behind (reference : Reference) (stop : Position) : Reference :=
  { reference with range := reference.range.behind stop }

theorem ofBody?_behind (body : List Char) (range : Range) (stop : Position) :
    ofBody? body (range.behind stop) = (ofBody? body range).map (·.behind stop) := by
  simp only [ofBody?]
  split <;> rfl

/-! ## Reading behind another text -/

/-- What is read from a text, once another text is put before it. -/
def outcomeBehind (stop : Position) :
    Except Unterminated (List Reference) → Except Unterminated (List Reference)
  | .ok found => .ok (found.map (·.behind stop))
  | .error failure => .error ⟨failure.start.behind stop⟩

/-- Below `2 ^ 32` characters, what is read from a text moves as the start of the text does. -/
theorem scanText_behind {layout : Layout} (h : layout.WellFormed) {before lead : List Char}
    (hsize : (before ++ (lead ++ layout.text)).length < UInt32.size) :
    scanText (.after (before ++ lead)) layout.text
      = outcomeBehind (.after before) (scanText (.after lead) layout.text) := by
  -- by the pieces of the text: `lead` is what has been read, which the other text comes before
  induction layout using Layout.cases_closed generalizing lead with
  | last last =>
    rw [Layout.text_last, scanText_of_not_holdsPair (h.last rfl),
      scanText_of_not_holdsPair (h.last rfl)]
    rfl
  | tail last tail =>
    have hopen : lead ++ last <+: lead ++ (⟨[], last, some tail⟩ : Layout).text := by
      rw [Layout.text_tail, ← List.append_assoc]
      exact List.prefix_append _ _
    rw [scanText_error h rfl, scanText_error h rfl, outcomeBehind]
    simp only [Layout.closedText, List.flatMap_nil, List.append_nil, List.append_assoc,
      Position.after_append_of_prefix hsize hopen]
  | cons piece layout ih =>
    obtain ⟨hgap, hbody, hlayout⟩ := Layout.wellFormed_cons.1 h
    rw [Layout.text_cons] at hsize ⊢
    have hstop : lead ++ piece.text <+: lead ++ (piece.text ++ layout.text) := by
      rw [← List.append_assoc]
      exact List.prefix_append _ _
    have hstart : lead ++ piece.gap <+: lead ++ (piece.text ++ layout.text) := by
      rw [Layout.piece_text_append, ← List.append_assoc]
      exact List.prefix_append _ _
    have hrange : (⟨.after (before ++ lead ++ piece.gap), .after (before ++ lead ++ piece.text)⟩
        : Range) = Range.behind ⟨.after (lead ++ piece.gap), .after (lead ++ piece.text)⟩
          (.after before) := by
      rw [List.append_assoc, List.append_assoc, Position.after_append_of_prefix hsize hstart,
        Position.after_append_of_prefix hsize hstop]
      rfl
    have hrest : scanText (.after (before ++ lead ++ piece.text)) layout.text
        = outcomeBehind (.after before) (scanText (.after (lead ++ piece.text)) layout.text) := by
      rw [List.append_assoc]
      apply ih hlayout
      rwa [List.append_assoc lead]
    rw [scanText_piece hgap hbody, scanText_piece hgap hbody, hrange, ofBody?_behind, hrest]
    cases scanText (.after (lead ++ piece.text)) layout.text with
    | error failure => rfl
    | ok found => simp [outcomeBehind, Except.map, Option.toList_map]

end Reference

theorem exists_prefix_of_references_error {text : List Char} {failure : Unterminated}
    (h : references text = .error failure) :
    ∃ part, part <+: text ∧ failure.start = .after part := by
  obtain ⟨layout, hlayout, rfl⟩ := Layout.exists_wellFormed text
  cases htail : layout.tail with
  | none =>
    obtain ⟨found, hfound, -⟩ := Reference.scanText_ok hlayout htail []
    exact absurd (h.symm.trans hfound) (by simp)
  | some tail =>
    have hfailure := Except.error.inj (h.symm.trans (Reference.scanText_error hlayout htail []))
    exact ⟨_, List.prefix_append _ _, congrArg Unterminated.start hfailure⟩

/-- What is read from two texts, the first of which can be read and ends in no `<`. -/
theorem references_append_eq_map {text more : List Char}
    (hsize : (text ++ more).length < UInt32.size) {found : List Reference}
    (hfound : references text = .ok found) (hseam : text.getLast? ≠ some '<') :
    references (text ++ more)
      = (Reference.outcomeBehind (.after text) (references more)).map (found ++ ·) := by
  obtain ⟨layout, hlayout, rfl, -, -⟩ := exists_layout_of_references hfound
  obtain ⟨layout', hlayout', rfl⟩ := Layout.exists_wellFormed more
  have hread : Reference.scanText (.after []) (layout.text ++ layout'.text) = _ :=
    Reference.scanText_append hlayout hfound fun hlast => absurd hlast hseam
  have hbehind : Reference.scanText (.after (layout.text ++ [])) layout'.text = _ :=
    Reference.scanText_behind hlayout' hsize
  rw [List.append_nil] at hbehind
  calc references (layout.text ++ layout'.text)
      = (Reference.scanText (.after layout.text) layout'.text).map (found ++ ·) := hread
    _ = (Reference.outcomeBehind (.after layout.text) (references layout'.text)).map
          (found ++ ·) := by
        rw [hbehind]
        rfl

/-- **Reading is compositional.** Let a text that can be read and does not end in `<` be put before
    another text, with fewer than `2 ^ 32` characters together. If the other text can be read too,
    the whole is read as the references of the first text and then those of the second one, with
    their positions behind the end of the first text. If the other text has a substitution that is
    not closed, so has the whole, at that position behind the end of the first text. No coordinate
    is cut off in this. -/
theorem references_append (text more : List Char) (hsize : (text ++ more).length < UInt32.size)
    (found : List Reference) (hfound : references text = .ok found)
    (hseam : text.getLast? ≠ some '<') :
    let stop := Position.origin.advanceBy text
    (∀ others, references more = .ok others →
      references (text ++ more) = .ok (found ++ others.map (·.behind stop))
      ∧ ∀ other ∈ others, other.range.start.ExactBehind stop ∧ other.range.stop.ExactBehind stop)
    ∧ (∀ failure, references more = .error failure →
      references (text ++ more) = .error ⟨failure.start.behind stop⟩
      ∧ failure.start.ExactBehind stop) := by
  intro stop
  have hstop : stop = .after text := Position.origin_advanceBy text
  have hwhole := references_append_eq_map hsize hfound hseam
  rw [hstop]
  constructor
  · intro others hothers
    rw [hwhole, hothers]
    refine ⟨rfl, fun other hother => ?_⟩
    obtain ⟨lead, body, hstands⟩ := exists_standsAt_of_mem_references hothers hother
    rw [hstands.range_eq]
    exact ⟨Position.exactBehind_after hsize ((List.prefix_append _ _).trans hstands.written),
      Position.exactBehind_after hsize hstands.written⟩
  · intro failure hfailure
    obtain ⟨part, hpart, hstart⟩ := exists_prefix_of_references_error hfailure
    rw [hwhole, hfailure]
    refine ⟨rfl, ?_⟩
    rw [hstart]
    exact Position.exactBehind_after hsize hpart

/-- The `>` on both sides of the seam close nothing. Of the two references behind it, only the one
    on the first line is moved by characters. -/
theorem references_append_delimiters :
    let text := "<< parameters.a >>>\n>".toList
    let more := "> << parameters.b >>\n<< parameters.c >>".toList
    let reference (name : String) (range : Range) : Reference :=
      { name, path := "parameters." ++ name, qualifier := .localScope, range }
    references (text ++ more)
      = .ok [reference "a" ⟨⟨0, 0⟩, ⟨0, 18⟩⟩, reference "b" ⟨⟨1, 3⟩, ⟨1, 21⟩⟩,
          reference "c" ⟨⟨2, 0⟩, ⟨2, 18⟩⟩] := by
  intro text more reference
  have hfound : references text = .ok [reference "a" ⟨⟨0, 0⟩, ⟨0, 18⟩⟩] := by decide +kernel
  have hothers : references more
      = .ok [reference "b" ⟨⟨0, 2⟩, ⟨0, 20⟩⟩, reference "c" ⟨⟨1, 0⟩, ⟨1, 18⟩⟩] := by decide +kernel
  exact ((references_append text more (by decide) _ hfound (by decide)).1 _ hothers).1

/-- A `<` at the end of a text can open a substitution with what follows. -/
example : references "a <".toList = .ok [] ∧ references "< b".toList = .ok []
    ∧ references ("a <".toList ++ "< b".toList) = .error ⟨⟨0, 2⟩⟩ := by
  decide +kernel

end PipelineLint
