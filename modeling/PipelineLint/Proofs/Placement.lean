import PipelineLint.Proofs.ByteOffsets
import PipelineLint.Proofs.Substitutions
import PipelineLint.SyntaxTree

set_option autoImplicit false

/-! # Where references stand in the source

A reference is found in the text of a scalar, and `NodeKind.place` moves its range to the source.
The true range counts characters from the scalar's first character only on the scalar's first line
(`Position.after_append`); placement either always does so or never. So a placed range is the true
one exactly when the scalar starts a line, or the reference lies on the lines for which the
scalar's kind is right (`place_eq_actual_iff`). A true range cuts the substitution out of the
source, whatever carriage returns or wide characters stand around it (`slice_actualRange`). -/

namespace PipelineLint

/-! ## The substitution of a reference -/

/-- The range of the substitution with this body that stands after `lead`. -/
def actualRange (lead body : List Char) : Range where
  start := .after lead
  stop := .after (lead ++ substitution body)

/-- Whether a reference is the substitution with this body that stands after `lead` in a text. -/
structure Reference.StandsAt (reference : Reference) (text lead body : List Char) : Prop where
  written : lead ++ substitution body <+: text
  spells : Spells body reference.qualifier reference.name.toList
  range_eq : reference.range = actualRange lead body

theorem Reference.StandsAt.mono {reference : Reference} {text whole lead body : List Char}
    (h : reference.StandsAt text lead body) (hpre : text <+: whole) :
    reference.StandsAt whole lead body :=
  ⟨h.written.trans hpre, h.spells, h.range_eq⟩

theorem Layout.closedText_prefix_text (layout : Layout) :
    closedText layout.closed <+: layout.text := by
  rw [text, List.append_assoc]
  exact List.prefix_append _ _

/-- A body that spells a reference makes one that stands after the gap before it. -/
theorem Spells.standsAt {piece : Piece} {qualifier : Qualifier} {name : List Char}
    (h : Spells piece.body qualifier name) (before rest : List Char) :
    Reference.StandsAt
      { name := String.ofList name
        path := String.ofList (Text.trim piece.body)
        qualifier := qualifier
        range := ⟨.after (before ++ piece.gap), .after (before ++ piece.text)⟩ }
      (before ++ piece.text ++ rest) (before ++ piece.gap) piece.body := by
  refine ⟨?_, by simpa using h, by simp [Piece.text, actualRange]⟩
  rw [Piece.text, ← List.append_assoc]
  exact List.prefix_append _ _

theorem Listed.exists_standsAt {before : List Char} {pieces : List Piece} {found : List Reference}
    (h : Listed before pieces found) {reference : Reference} (hmem : reference ∈ found) :
    ∃ lead body, before <+: lead
      ∧ reference.StandsAt (before ++ Layout.closedText pieces) lead body := by
  induction h with
  | nil => exact absurd hmem List.not_mem_nil
  | @reference before piece pieces found qualifier name hbody hrest ih =>
    rw [Layout.append_closedText_cons]
    rcases List.mem_cons.1 hmem with rfl | hmem
    · exact ⟨before ++ piece.gap, piece.body, List.prefix_append _ _, hbody.standsAt before _⟩
    · obtain ⟨lead, body, hlead, hstands⟩ := ih hmem
      exact ⟨lead, body, (List.prefix_append _ _).trans hlead, hstands⟩
  | @other before piece pieces found hbody hrest ih =>
    rw [Layout.append_closedText_cons]
    obtain ⟨lead, body, hlead, hstands⟩ := ih hmem
    exact ⟨lead, body, (List.prefix_append _ _).trans hlead, hstands⟩

/-- Every reference of a text is one of its substitutions. -/
theorem exists_standsAt_of_mem_references {text : List Char} {found : List Reference}
    (hfound : references text = .ok found) {reference : Reference} (hmem : reference ∈ found) :
    ∃ lead body, reference.StandsAt text lead body := by
  obtain ⟨layout, -, rfl, -, hlisted⟩ := exists_layout_of_references hfound
  obtain ⟨lead, body, -, hstands⟩ := hlisted.exists_standsAt hmem
  exact ⟨lead, body, hstands.mono layout.closedText_prefix_text⟩

/-! ## Placed and true ranges -/

/-- Moving a position of a text by `indent` characters leads to the true position if that is as much
    as the line of the position is moved. -/
theorem shift_eq_after_append_iff {before text : List Char} {indent : UInt32}
    (hsize : (before ++ text).length < UInt32.size)
    (hindent : indent.toNat ≤ (Position.after before).character.toNat) :
    (Position.after text).shift (Position.after before).line indent = .after (before ++ text)
      ↔ indent = if (Position.after text).line = 0 then (Position.after before).character else 0 := by
  have hlength : before.length + text.length < UInt32.size := by rwa [← List.length_append]
  have hlast := Text.length_lastLine_le before
  have hlast' := Text.length_lastLine_le text
  have hbefore : (Position.after before).character.toNat = (Text.lastLine before).length :=
    Position.toNat_character_after (by omega)
  have htext : (Position.after text).character.toNat = (Text.lastLine text).length :=
    Position.toNat_character_after (by omega)
  rw [Position.after_append before text hsize, Position.shift_eq_shift_iff]
  · omega
  · split
    · omega
    · rw [UInt32.toNat_zero]
      omega

/-- A placed range is the true one exactly if the scalar starts a line, or it is written in the
    line and the reference ends on its first line, or it is a block and the reference starts on a
    later line. -/
theorem place_eq_actual_iff {kind : NodeKind} (hkind : kind = .stringScalar ∨ kind = .blockScalar)
    {before lead body : List Char}
    (hsize : (before ++ (lead ++ substitution body)).length < UInt32.size) :
    kind.place (.after before) (actualRange lead body) = actualRange (before ++ lead) body
      ↔ (Position.after before).character = 0
        ∨ (kind = .stringScalar ∧ (actualRange lead body).stop.line = 0)
        ∨ (kind = .blockScalar ∧ 0 < (actualRange lead body).start.line) := by
  have hlead : (before ++ lead).length < UInt32.size := by
    simp only [List.length_append] at hsize ⊢
    omega
  -- the first line of the text holds the start of a reference if it holds its end
  have hlines : (Position.after (lead ++ substitution body)).line = 0
      → (Position.after lead).line = 0 := by
    rw [Position.line_after_eq_zero_iff (by simp only [List.length_append] at hsize ⊢; omega),
      Position.line_after_eq_zero_iff (by simp only [List.length_append] at hlead; omega)]
    exact fun h hmem => h (List.mem_append_left _ hmem)
  have hpos : 0 < (Position.after lead).line ↔ (Position.after lead).line ≠ 0 := by
    rw [UInt32.lt_iff_toNat_lt, Ne, ← UInt32.toNat_inj, UInt32.toNat_zero]
    omega
  rw [NodeKind.place, actualRange, actualRange, Range.mk.injEq, List.append_assoc before]
  rcases hkind with rfl | rfl
  · -- in the line: both ends are moved by the indentation, so both have to be on the first line
    simp only [reduceCtorEq, if_false, true_and, false_and, or_false]
    rw [shift_eq_after_append_iff hlead (Nat.le_refl _),
      shift_eq_after_append_iff hsize (Nat.le_refl _)]
    by_cases hstop : (Position.after (lead ++ substitution body)).line = 0
    · simp only [hlines hstop, hstop, if_true, and_self, or_true]
    · simp only [hstop, if_false, or_false]
      constructor
      · rintro ⟨-, h⟩
        exact h
      · intro h
        simp only [h, ite_self, and_self]
  · -- in a block: neither end is moved, so neither may be on the first line
    simp only [reduceCtorEq, if_true, true_and, false_and, false_or]
    rw [shift_eq_after_append_iff hlead (Nat.zero_le _),
      shift_eq_after_append_iff hsize (Nat.zero_le _), hpos]
    by_cases hstart : (Position.after lead).line = 0
    · simp only [hstart, if_true, ne_eq, not_true, or_false]
      constructor
      · rintro ⟨h, -⟩
        exact h.symm
      · intro h
        simp only [h, ite_self, and_self]
    · have hstop : ¬ (Position.after (lead ++ substitution body)).line = 0 := mt hlines hstart
      simp only [hstart, hstop, if_false, ne_eq, not_false_iff, or_true, and_self]

/-- Between the byte offsets of its true range lies the substitution. -/
theorem slice_actualRange {lead body rest : List Char}
    (hsize : (lead ++ substitution body).length < UInt32.size) :
    Text.sliceBytes? (lead ++ substitution body ++ rest)
      (Text.byteOffset (lead ++ substitution body ++ rest) (actualRange lead body).start)
      (Text.byteOffset (lead ++ substitution body ++ rest) (actualRange lead body).stop)
      = some (substitution body) := by
  have hlead : lead.length < UInt32.size := by
    rw [List.length_append] at hsize
    omega
  have hstart : Text.byteOffset (lead ++ substitution body ++ rest) (.after lead)
      = Text.byteLength lead := by
    rw [List.append_assoc]
    exact Text.byteOffset_after_of_cons hlead (by decide) (by decide) _
  have hstop : Text.byteOffset (lead ++ substitution body ++ rest)
      (.after (lead ++ substitution body)) = Text.byteLength (lead ++ substitution body) := by
    have hconcat : lead ++ substitution body = lead ++ '<' :: '<' :: (body ++ ['>']) ++ ['>'] := by
      simp [substitution]
    rw [hconcat] at hsize ⊢
    exact Text.byteOffset_after_concat hsize (by decide) rest
  rw [actualRange, hstart, hstop, Text.sliceBytes?_append]

/-- **Localisation of references.** Let a scalar of a source of fewer than `2 ^ 32` characters stand
    after the text `before`. Each reference in it is one of its substitutions. The range at which
    the reference is reported is the true range of that substitution in the source exactly if the
    scalar starts a line, or it is written in the line and the reference ends on its first line, or
    it is a block and the reference starts on a later line. A reported range that is true cuts the
    substitution out of the source. -/
theorem place_reference_iff (before more : List Char) (node : Node)
    (hsize : (before ++ node.text.toList ++ more).length < UInt32.size)
    (hkind : node.kind = .stringScalar ∨ node.kind = .blockScalar)
    (hstart : node.start
      = ((Cursor.ofList (before ++ node.text.toList ++ more)).advanceTimes before.length).2.position)
    (found : List Reference) (hfound : references node.text.toList = .ok found)
    (reference : Reference) (hmem : reference ∈ found) :
    (∃ lead body, reference.StandsAt node.text.toList lead body)
    ∧ ∀ lead body, reference.StandsAt node.text.toList lead body →
        let source := before ++ node.text.toList ++ more
        let placed := node.kind.place node.start reference.range
        (placed = actualRange (before ++ lead) body
          ↔ node.start.character = 0
            ∨ (node.kind = .stringScalar ∧ reference.range.stop.line = 0)
            ∨ (node.kind = .blockScalar ∧ 0 < reference.range.start.line))
        ∧ (placed = actualRange (before ++ lead) body →
            Text.sliceBytes? source (Text.byteOffset source placed.start)
              (Text.byteOffset source placed.stop) = some (substitution body)) := by
  refine ⟨exists_standsAt_of_mem_references hfound hmem, ?_⟩
  rintro lead body ⟨⟨rest, htext⟩, -, hrange⟩
  have hsource : before ++ node.text.toList ++ more
      = before ++ lead ++ substitution body ++ (rest ++ more) := by
    rw [← htext]
    simp only [List.append_assoc]
  have hlength : (before ++ lead ++ substitution body).length < UInt32.size := by
    rw [hsource, List.length_append] at hsize
    exact Nat.lt_of_le_of_lt (Nat.le_add_right _ _) hsize
  rw [List.append_assoc, Cursor.position_advanceTimes_ofList] at hstart
  rw [hstart, hrange, hsource]
  refine ⟨place_eq_actual_iff hkind (by rwa [List.append_assoc] at hlength), ?_⟩
  intro hplaced
  rw [hplaced]
  exact slice_actualRange hlength

/-- In a block that stands after a wide character, a reference on the second line is reported where
    it is, carriage returns or not. -/
theorem place_reference_iff_block :
    let text := "|\r\n << parameters.x >>"
    let node : Node := { kind := .blockScalar, start := ⟨0, 3⟩, stop := ⟨1, 19⟩, text, children := [] }
    let source := "é: ".toList ++ text.toList ++ "\r\n".toList
    let reference : Reference :=
      { name := "x", path := "parameters.x", qualifier := .localScope, range := ⟨⟨1, 1⟩, ⟨1, 19⟩⟩ }
    references node.text.toList = .ok [reference]
      ∧ Text.sliceBytes? source
          (Text.byteOffset source (node.kind.place node.start reference.range).start)
          (Text.byteOffset source (node.kind.place node.start reference.range).stop)
        = some "<< parameters.x >>".toList := by
  intro text node source reference
  have hfound : references node.text.toList = .ok [reference] := by decide +kernel
  refine ⟨hfound, ?_⟩
  have hname : ∀ c ∈ reference.name.toList, IsNameChar c := by
    intro c hc
    obtain rfl : c = 'x' := by simpa [reference] using hc
    decide
  have hstands : reference.StandsAt node.text.toList "|\r\n ".toList " parameters.x ".toList :=
    ⟨by decide, ⟨by decide, by decide, hname⟩, by decide⟩
  obtain ⟨hplaced, hslice⟩ :=
    (place_reference_iff "é: ".toList "\r\n".toList node (by decide) (Or.inr rfl) (by decide)
      [reference] hfound reference (List.mem_singleton.2 rfl)).2 _ _ hstands
  have hbody : substitution " parameters.x ".toList = "<< parameters.x >>".toList := by decide
  rw [← hbody]
  exact hslice (hplaced.2 (Or.inr (Or.inr ⟨rfl, by decide⟩)))

end PipelineLint
