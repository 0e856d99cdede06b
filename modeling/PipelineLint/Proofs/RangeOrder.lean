import PipelineLint.Proofs.Placement

set_option autoImplicit false

/-! # The order of placed ranges

The references of a text stand one after the other (`Reference.Precedes`), so their ranges are in
order, and no range is empty. Moving a range to the place of its scalar keeps the order of positions
as long as no sum is cut off. Where sums are cut off, the two ends of a range may still meet, but
they do not change sides unless the lines are cut off already at the start: two different lines then
become one, and the characters decide (`place_references_ordered`). -/

namespace PipelineLint

/-! ## References one after the other -/

/-- Whether one reference of a text ends before another one starts. -/
def Reference.Precedes (text : List Char) (reference later : Reference) : Prop :=
  ∃ lead body lead' body', reference.StandsAt text lead body ∧ later.StandsAt text lead' body'
    ∧ lead ++ substitution body <+: lead'

theorem Listed.pairwise_precedes {before : List Char} {pieces : List Piece}
    {found : List Reference} (h : Listed before pieces found) :
    found.Pairwise (Reference.Precedes (before ++ Layout.closedText pieces)) := by
  induction h with
  | nil => exact .nil
  | @reference before piece pieces found qualifier name hbody hrest ih =>
    rw [Layout.append_closedText_cons]
    refine .cons ?_ ih
    intro later hlater
    obtain ⟨lead, body, hlead, hstands⟩ := hrest.exists_standsAt hlater
    refine ⟨_, _, lead, body, hbody.standsAt before _, hstands, ?_⟩
    rwa [Piece.text, ← List.append_assoc] at hlead
  | @other before piece pieces found hbody hrest ih =>
    rw [Layout.append_closedText_cons]
    exact ih

/-- The references of a text are listed in the order in which they stand there. -/
theorem pairwise_precedes_references {text : List Char} {found : List Reference}
    (hfound : references text = .ok found) : found.Pairwise (Reference.Precedes text) := by
  obtain ⟨layout, -, rfl, -, hlisted⟩ := exists_layout_of_references hfound
  have hclosed := layout.closedText_prefix_text
  apply hlisted.pairwise_precedes.imp
  rintro reference later ⟨lead, body, lead', body', hstands, hstands', hpre⟩
  exact ⟨lead, body, lead', body', hstands.mono hclosed, hstands'.mono hclosed, hpre⟩

/-! ## Ranges in a text -/

section

variable {text : List Char} (hsize : text.length < UInt32.size)

include hsize

theorem Reference.StandsAt.start_lt_stop {reference : Reference} {lead body : List Char}
    (h : reference.StandsAt text lead body) : reference.range.start < reference.range.stop := by
  rw [h.range_eq]
  exact Position.after_lt_after_append (List.cons_ne_nil _ _) (h.written.length_le.trans_lt hsize)

theorem Reference.Precedes.stop_le_start {reference later : Reference}
    (h : reference.Precedes text later) : reference.range.stop ≤ later.range.start := by
  obtain ⟨lead, body, lead', body', hstands, hstands', hpre⟩ := h
  rw [hstands.range_eq, hstands'.range_eq]
  apply Position.after_le_after hpre
  have hlead' : lead' <+: text := (List.prefix_append _ _).trans hstands'.written
  exact hlead'.length_le.trans_lt hsize

end

/-! ## Moving ranges -/

namespace Position

variable {p q : Position} {lines characters : UInt32}

/-- Two positions keep their order if they are on one line or the first one stays above the last
    line. -/
theorem shift_le_shift (h : p ≤ q)
    (hlines : p.line = q.line ∨ lines.toNat + p.line.toNat < UInt32.size - 1) :
    p.shift lines characters ≤ q.shift lines characters := by
  -- on different lines, `p` stays above the last line and so above `q`, cut off or not
  rw [le_iff] at *
  simp only [shift, toNat_saturatingAdd, ← UInt32.toNat_inj] at *
  omega

theorem toNat_shift (h : p.ShiftsExactly lines characters) :
    (p.shift lines characters).line.toNat = p.line.toNat + lines.toNat
      ∧ (p.shift lines characters).character.toNat = p.character.toNat + characters.toNat := by
  obtain ⟨hline, hcharacter⟩ := h
  simp only [shift, toNat_saturatingAdd]
  omega

theorem shift_lt_shift_iff (hp : p.ShiftsExactly lines characters)
    (hq : q.ShiftsExactly lines characters) :
    p.shift lines characters < q.shift lines characters ↔ p < q := by
  obtain ⟨hpline, hpcharacter⟩ := toNat_shift hp
  obtain ⟨hqline, hqcharacter⟩ := toNat_shift hq
  rw [lt_iff, lt_iff, hpline, hpcharacter, hqline, hqcharacter]
  omega

end Position

namespace Range

/-- The number of lines from the start of a range to its end. -/
def lineSpan (range : Range) : Nat :=
  range.stop.line.toNat - range.start.line.toNat

/-- The number of characters from the start of a range to its end, on one line. -/
def width (range : Range) : Nat :=
  range.stop.character.toNat - range.start.character.toNat

end Range

namespace NodeKind

/-- The number of characters by which ranges in a scalar are moved. -/
def indent (kind : NodeKind) (start : Position) : UInt32 :=
  if kind = blockScalar then 0 else start.character

/-- Whether no sum is cut off when a range of a scalar is moved to the scalar's place. -/
def PlacesExactly (kind : NodeKind) (start : Position) (range : Range) : Prop :=
  range.start.ShiftsExactly start.line (kind.indent start)
    ∧ range.stop.ShiftsExactly start.line (kind.indent start)

instance (kind : NodeKind) (start : Position) (range : Range) :
    Decidable (kind.PlacesExactly start range) :=
  inferInstanceAs (Decidable (_ ∧ _))

variable {kind : NodeKind} {start : Position} {range later : Range}

theorem start_place :
    (kind.place start range).start = range.start.shift start.line (kind.indent start) := rfl

theorem stop_place :
    (kind.place start range).stop = range.stop.shift start.line (kind.indent start) := rfl

theorem PlacesExactly.start_lt_stop (h : kind.PlacesExactly start range)
    (hrange : range.start < range.stop) :
    (kind.place start range).start < (kind.place start range).stop :=
  (Position.shift_lt_shift_iff h.1 h.2).2 hrange

theorem PlacesExactly.stop_le_start (h : kind.PlacesExactly start range)
    (h' : kind.PlacesExactly start later) (horder : range.stop ≤ later.start) :
    (kind.place start range).stop ≤ (kind.place start later).start := by
  rw [← not_lt] at horder ⊢
  rwa [← Position.shift_lt_shift_iff h'.1 h.2] at horder

theorem PlacesExactly.lineSpan_eq (h : kind.PlacesExactly start range) :
    (kind.place start range).lineSpan = range.lineSpan := by
  rw [Range.lineSpan, start_place, stop_place, (Position.toNat_shift h.1).1,
    (Position.toNat_shift h.2).1, Nat.add_sub_add_right, Range.lineSpan]

theorem PlacesExactly.width_eq (h : kind.PlacesExactly start range) :
    (kind.place start range).width = range.width := by
  rw [Range.width, start_place, stop_place, (Position.toNat_shift h.1).2,
    (Position.toNat_shift h.2).2, Nat.add_sub_add_right, Range.width]

end NodeKind

/-- **Placed ranges are in order.** Take the references of a scalar of fewer than `2 ^ 32`
    characters at the place of the scalar. If a reference lies on one line, or starts above the last
    line that can be numbered, its range does not end before it starts, whatever else is cut off. If
    no sum is cut off, the range is not empty and spans as many lines as the reference does in the
    scalar, or as many characters if it lies on one line, and it ends before the range of every
    later reference starts. -/
theorem place_references_ordered (node : Node) (hsize : node.text.toList.length < UInt32.size)
    (found : List Reference) (hfound : references node.text.toList = .ok found) :
    let placed (reference : Reference) : Range := node.kind.place node.start reference.range
    let uncut (reference : Reference) : Prop :=
      node.kind.PlacesExactly node.start reference.range
    (∀ reference ∈ found,
      (reference.range.start.line = reference.range.stop.line
        ∨ node.start.line.toNat + reference.range.start.line.toNat < UInt32.size - 1) →
      (placed reference).start ≤ (placed reference).stop)
    ∧ (∀ reference ∈ found, uncut reference →
      (placed reference).start < (placed reference).stop
      ∧ (placed reference).lineSpan = reference.range.lineSpan
      ∧ (reference.range.start.line = reference.range.stop.line →
        (placed reference).start.line = (placed reference).stop.line
        ∧ (placed reference).width = reference.range.width))
    ∧ found.Pairwise fun reference later => uncut reference → uncut later →
      (placed reference).stop ≤ (placed later).start := by
  intro placed uncut
  have hnonempty : ∀ reference ∈ found, reference.range.start < reference.range.stop := by
    intro reference hmem
    obtain ⟨lead, body, hstands⟩ := exists_standsAt_of_mem_references hfound hmem
    exact hstands.start_lt_stop hsize
  refine ⟨?_, ?_, ?_⟩
  · intro reference hmem hlines
    exact Position.shift_le_shift (hnonempty reference hmem).le hlines
  · intro reference hmem huncut
    refine ⟨huncut.start_lt_stop (hnonempty reference hmem), huncut.lineSpan_eq, fun hline => ?_⟩
    refine ⟨?_, huncut.width_eq⟩
    exact congrArg (fun line => saturatingAdd line node.start.line) hline
  · apply (pairwise_precedes_references hfound).imp
    intro reference later hprecedes huncut huncut'
    exact huncut.stop_le_start huncut' (hprecedes.stop_le_start hsize)

/-- Two references, the first of which spans three lines. Where its end is on the last line that can
    be numbered, both keep their shape and their order; one line below, its lines are cut off. -/
theorem place_references_ordered_last_line :
    let node (line : UInt32) : Node :=
      { kind := .stringScalar, start := ⟨line, 7⟩, stop := ⟨4294967295, 28⟩
        text := "<<\nparameters.a\n>> << parameters.b >>" }
    let placed (line : UInt32) (range : Range) : Range :=
      (node line).kind.place (node line).start range
    let first : Range := ⟨⟨0, 0⟩, ⟨2, 2⟩⟩
    let second : Range := ⟨⟨2, 3⟩, ⟨2, 21⟩⟩
    (placed 4294967293 first).start < (placed 4294967293 first).stop
      ∧ (placed 4294967293 first).lineSpan = 2
      ∧ (placed 4294967293 second).width = 18
      ∧ (placed 4294967293 first).stop ≤ (placed 4294967293 second).start
      ∧ (placed 4294967294 first).start ≤ (placed 4294967294 first).stop := by
  intro node placed first second
  let reference (name : String) (range : Range) : Reference :=
    { name, path := "parameters." ++ name, qualifier := .localScope, range }
  have hfound : ∀ line, references (node line).text.toList
      = .ok [reference "a" first, reference "b" second] := by
    intro line
    show references "<<\nparameters.a\n>> << parameters.b >>".toList = _
    decide +kernel
  obtain ⟨-, hshape, horder⟩ := place_references_ordered (node 4294967293) (by decide) _ (hfound _)
  obtain ⟨hcut, -, -⟩ := place_references_ordered (node 4294967294) (by decide) _ (hfound _)
  obtain ⟨hfirst, hlines, -⟩ := hshape (reference "a" first) List.mem_cons_self (by decide)
  obtain ⟨-, -, hwidth⟩ :=
    hshape (reference "b" second) (List.mem_cons_of_mem _ List.mem_cons_self) (by decide)
  have hnext := List.rel_of_pairwise_cons horder List.mem_cons_self (by decide) (by decide)
  exact ⟨hfirst, hlines, (hwidth rfl).2, hnext,
    hcut (reference "a" first) List.mem_cons_self (Or.inr (by decide))⟩

/-- On the last line that can be numbered, two lines of a scalar become one, and a reference that
    ends further left than it starts is turned round. -/
example :
    let text := "    <<\nparameters.x\n>>".toList
    let range : Range := ⟨⟨0, 4⟩, ⟨2, 2⟩⟩
    (references text).map (·.map Reference.range) = .ok [range]
      ∧ NodeKind.place .stringScalar ⟨4294967295, 0⟩ range
        = ⟨⟨4294967295, 4⟩, ⟨4294967295, 2⟩⟩ := by
  decide +kernel

end PipelineLint
