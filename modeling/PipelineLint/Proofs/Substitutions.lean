import Mathlib.Data.List.Infix
import PipelineLint.Proofs.Positions
import PipelineLint.Reference

set_option autoImplicit false

/-! # The grammar of substitutions

Every text can be cut at its substitutions in exactly one way: gaps that hold no `<<`, bodies that
hold no `>>`, and at the end a gap or a `<<` that nothing closes. A `Layout` is such a cut; it
exists (`Layout.exists_wellFormed`), and there is no other (`Layout.WellFormed.eq_of_text_eq`).
Reading the references of a text follows its layout: an open end is the failure, at the position of
its `<<`, and otherwise the bodies that spell a reference are listed in order (`Listed`).

The two delimiters are pairs of one character, and overlap with themselves: in `<<<` the first two
open, in `>>>` the first two close. So a gap is asked to hold no `<<` even with the first `<` of the
pair after it (`HoldsPair`), and that makes the first pair of a text unique (`append_pair_inj`). -/

namespace PipelineLint

/-! ## Pairs of one character -/

namespace Text

/-- Whether a character stands twice in a row somewhere in a text. -/
def HoldsPair (c : Char) (text : List Char) : Prop :=
  [c, c] <:+: text

instance (c : Char) (text : List Char) : Decidable (HoldsPair c text) :=
  inferInstanceAs (Decidable ([c, c] <:+: text))

theorem not_holdsPair_nil (c : Char) : ¬ HoldsPair c [] := by
  simp [HoldsPair]

theorem holdsPair_cons {c d : Char} {text : List Char} :
    HoldsPair c (d :: text) ↔ (d = c ∧ ∃ rest, text = c :: rest) ∨ HoldsPair c text := by
  unfold HoldsPair
  rw [List.infix_cons_iff, List.cons_prefix_cons, List.prefix_iff_exists_eq_append, eq_comm]
  simp only [List.singleton_append]

theorem holdsPair_append_pair (c : Char) (before rest : List Char) :
    HoldsPair c (before ++ c :: c :: rest) :=
  ⟨before, rest, by simp⟩

theorem HoldsPair.append_right {c : Char} {text : List Char} (h : HoldsPair c text)
    (more : List Char) : HoldsPair c (text ++ more) :=
  h.trans (List.prefix_append text more).isInfix

theorem exists_append_eq_cons (c : Char) (text rest : List Char) :
    (∃ more, text ++ c :: rest = c :: more) ↔ ∃ more, text ++ [c] = c :: more := by
  cases text with
  | nil => exact ⟨fun _ => ⟨[], rfl⟩, fun _ => ⟨rest, rfl⟩⟩
  | cons d text =>
    simp only [List.cons_append, List.cons.injEq, exists_and_left, exists_eq', and_true]

theorem HoldsPair.exists_first {c : Char} {text : List Char} (h : HoldsPair c text) :
    ∃ before rest, text = before ++ c :: c :: rest ∧ ¬ HoldsPair c (before ++ [c]) := by
  induction text with
  | nil => exact absurd h (not_holdsPair_nil c)
  | cons d text ih =>
    by_cases hhead : d = c ∧ ∃ rest, text = c :: rest
    · obtain ⟨rfl, rest, rfl⟩ := hhead
      exact ⟨[], rest, rfl, by simp [holdsPair_cons, not_holdsPair_nil]⟩
    · obtain ⟨before, rest, htext, hbefore⟩ := ih ((holdsPair_cons.1 h).resolve_left hhead)
      refine ⟨d :: before, rest, by rw [htext]; rfl, ?_⟩
      rw [List.cons_append, holdsPair_cons, not_or]
      refine ⟨?_, hbefore⟩
      -- a pair at the front of `d :: before ++ [c]` is one at the front of the whole text
      rintro ⟨hd, hmore⟩
      exact hhead ⟨hd, htext ▸ (exists_append_eq_cons c before (c :: rest)).2 hmore⟩

theorem append_pair_inj {c : Char} {before before' rest rest' : List Char}
    (h : ¬ HoldsPair c (before ++ [c])) (h' : ¬ HoldsPair c (before' ++ [c]))
    (heq : before ++ c :: c :: rest = before' ++ c :: c :: rest') :
    before = before' ∧ rest = rest' := by
  -- the longer of the two first parts would hold the pair of the other cut
  have key : ∀ {short long more : List Char} {rest rest' : List Char},
      ¬ HoldsPair c (long ++ [c]) → long = short ++ more →
      c :: c :: rest = more ++ c :: c :: rest' → more = [] := by
    intro short long more rest rest' hlong hsplit hrest
    rcases more with _ | ⟨d, _ | ⟨e, more⟩⟩
    · rfl
    · rw [List.singleton_append, List.cons.injEq] at hrest
      rw [hsplit, ← hrest.1, List.append_assoc] at hlong
      exact absurd (holdsPair_append_pair c short []) hlong
    · rw [List.cons_append, List.cons_append, List.cons.injEq, List.cons.injEq] at hrest
      rw [hsplit, ← hrest.1, ← hrest.2.1] at hlong
      exact absurd ((holdsPair_append_pair c short more).append_right [c]) hlong
  rcases List.append_eq_append_iff.1 heq with ⟨more, hsplit, hrest⟩ | ⟨more, hsplit, hrest⟩
  · obtain rfl := key h' hsplit hrest
    simpa [eq_comm] using And.intro hsplit hrest
  · obtain rfl := key h hsplit hrest
    simpa [eq_comm] using And.intro hsplit hrest

end Text

/-! ## Layouts -/

/-- A substitution as it is written. -/
def substitution (body : List Char) : List Char :=
  '<' :: '<' :: (body ++ ['>', '>'])

/-- A gap and the closed substitution after it. -/
structure Piece where
  gap : List Char
  body : List Char

def Piece.text (piece : Piece) : List Char :=
  piece.gap ++ substitution piece.body

/-- A text cut at its substitutions. -/
structure Layout where
  /-- The closed substitutions, each with the gap before it. -/
  closed : List Piece
  /-- The gap after the last closed substitution. -/
  last : List Char
  /-- What follows a `<<` that is not closed, if there is one after the last gap. -/
  tail : Option (List Char)

namespace Layout

/-- The text before the last gap. -/
def closedText (pieces : List Piece) : List Char :=
  pieces.flatMap Piece.text

theorem append_closedText_cons (before : List Char) (piece : Piece) (pieces : List Piece) :
    before ++ closedText (piece :: pieces) = before ++ piece.text ++ closedText pieces := by
  simp [closedText]

/-- A `<<` that is not closed, and what follows it. -/
def openText : Option (List Char) → List Char
  | none => []
  | some tail => '<' :: '<' :: tail

def text (layout : Layout) : List Char :=
  closedText layout.closed ++ layout.last ++ openText layout.tail

/-- Whether the cuts are at the first `<<` after each `>>`, and at the first `>>` after it. -/
structure WellFormed (layout : Layout) : Prop where
  gap : ∀ piece ∈ layout.closed, ¬ Text.HoldsPair '<' (piece.gap ++ ['<'])
  body : ∀ piece ∈ layout.closed, ¬ Text.HoldsPair '>' (piece.body ++ ['>'])
  last : layout.tail = none → ¬ Text.HoldsPair '<' layout.last
  tail : ∀ tail, layout.tail = some tail →
    ¬ Text.HoldsPair '<' (layout.last ++ ['<']) ∧ ¬ Text.HoldsPair '>' tail

def cons (piece : Piece) (layout : Layout) : Layout :=
  { layout with closed := piece :: layout.closed }

theorem text_cons (piece : Piece) (layout : Layout) :
    (cons piece layout).text = piece.text ++ layout.text := by
  simp [text, cons, closedText]

theorem wellFormed_cons {piece : Piece} {layout : Layout} :
    (cons piece layout).WellFormed ↔ ¬ Text.HoldsPair '<' (piece.gap ++ ['<'])
      ∧ ¬ Text.HoldsPair '>' (piece.body ++ ['>']) ∧ layout.WellFormed := by
  constructor
  · rintro ⟨hgap, hbody, hlast, htail⟩
    obtain ⟨hgap₁, hgap⟩ := List.forall_mem_cons.1 hgap
    obtain ⟨hbody₁, hbody⟩ := List.forall_mem_cons.1 hbody
    exact ⟨hgap₁, hbody₁, hgap, hbody, hlast, htail⟩
  · rintro ⟨hgap₁, hbody₁, hgap, hbody, hlast, htail⟩
    exact ⟨List.forall_mem_cons.2 ⟨hgap₁, hgap⟩, List.forall_mem_cons.2 ⟨hbody₁, hbody⟩, hlast, htail⟩

/-- The text of a piece, up to the end of the text, as a cut at a `<<` and a cut at a `>>`. -/
theorem piece_text_append (piece : Piece) (rest : List Char) :
    piece.text ++ rest = piece.gap ++ '<' :: '<' :: (piece.body ++ '>' :: '>' :: rest) := by
  simp [Piece.text, substitution]

theorem exists_wellFormed (text : List Char) :
    ∃ layout : Layout, layout.WellFormed ∧ layout.text = text := by
  -- cut at the first `<<`, then at the first `>>` after it, and go on with what is left
  by_cases hopen : Text.HoldsPair '<' text
  · obtain ⟨gap, rest, htext, hgap⟩ := hopen.exists_first
    by_cases hclose : Text.HoldsPair '>' rest
    · obtain ⟨body, rest', hrest, hbody⟩ := hclose.exists_first
      obtain ⟨layout, hlayout, hlast⟩ := exists_wellFormed rest'
      refine ⟨cons ⟨gap, body⟩ layout, wellFormed_cons.2 ⟨hgap, hbody, hlayout⟩, ?_⟩
      rw [text_cons, piece_text_append, hlast, ← hrest, ← htext]
    · exact ⟨⟨[], gap, some rest⟩, ⟨by simp, by simp, by simp, by simpa using ⟨hgap, hclose⟩⟩,
        by simp [Layout.text, closedText, openText, htext]⟩
  · exact ⟨⟨[], text, none⟩, ⟨by simp, by simp, fun _ => hopen, by simp⟩,
      by simp [Layout.text, closedText, openText]⟩
termination_by text.length
decreasing_by
  rw [htext, hrest]
  simp only [List.length_append, List.length_cons]
  omega

/-- A layout is a gap alone, a gap and an open end, or a piece before another layout. -/
theorem cases_closed {motive : Layout → Prop} (layout : Layout)
    (last : ∀ last, motive ⟨[], last, none⟩) (tail : ∀ last tail, motive ⟨[], last, some tail⟩)
    (cons : ∀ piece layout, motive layout → motive (cons piece layout)) : motive layout := by
  obtain ⟨closed, lastGap, openEnd⟩ := layout
  induction closed with
  | nil =>
    cases openEnd with
    | none => exact last lastGap
    | some t => exact tail lastGap t
  | cons piece closed ih => exact cons piece _ ih

theorem holdsPair_text_cons (piece : Piece) (layout : Layout) :
    Text.HoldsPair '<' (cons piece layout).text := by
  rw [text_cons, piece_text_append]
  exact Text.holdsPair_append_pair _ _ _

theorem text_tail (last tail : List Char) :
    (⟨[], last, some tail⟩ : Layout).text = last ++ '<' :: '<' :: tail := rfl

theorem text_last (last : List Char) : (⟨[], last, none⟩ : Layout).text = last := by
  simp [text, closedText, openText]

theorem text_tail_ne_text_cons {last tail : List Char} {piece : Piece} {layout : Layout}
    (h : (⟨[], last, some tail⟩ : Layout).WellFormed) (h' : (cons piece layout).WellFormed) :
    (⟨[], last, some tail⟩ : Layout).text ≠ (cons piece layout).text := by
  intro heq
  rw [text_tail, text_cons, piece_text_append] at heq
  obtain ⟨hlast, htail⟩ := h.tail tail rfl
  obtain ⟨-, hbody⟩ := Text.append_pair_inj hlast (wellFormed_cons.1 h').1 heq
  exact htail (hbody ▸ Text.holdsPair_append_pair _ _ _)

theorem WellFormed.eq_of_text_eq {layout other : Layout} (h : layout.WellFormed)
    (h' : other.WellFormed) (heq : layout.text = other.text) : layout = other := by
  induction layout using cases_closed generalizing other with
  | last last =>
    -- no other form of layout has a text without `<<`
    have hlast : ¬ Text.HoldsPair '<' other.text := by
      rw [← heq, text_last]
      exact h.last rfl
    cases other using cases_closed with
    | last last' => rw [text_last, text_last] at heq; rw [heq]
    | tail last' tail => exact absurd (Text.holdsPair_append_pair _ _ _) hlast
    | cons piece other => exact absurd (holdsPair_text_cons piece other) hlast
  | tail last tail =>
    cases other using cases_closed with
    | last last' =>
      rw [text_last] at heq
      exact absurd (heq ▸ Text.holdsPair_append_pair _ last tail) (h'.last rfl)
    | tail last' tail' =>
      obtain ⟨rfl, rfl⟩ := Text.append_pair_inj (h.tail tail rfl).1 (h'.tail tail' rfl).1 heq
      rfl
    | cons piece other => exact absurd heq (text_tail_ne_text_cons h h')
  | cons piece layout ih =>
    cases other using cases_closed with
    | last last' =>
      rw [text_last] at heq
      exact absurd (heq ▸ holdsPair_text_cons piece layout) (h'.last rfl)
    | tail last' tail => exact absurd heq.symm (text_tail_ne_text_cons h' h)
    | cons piece' other =>
      obtain ⟨hgap, hbody, hlayout⟩ := wellFormed_cons.1 h
      obtain ⟨hgap', hbody', hother⟩ := wellFormed_cons.1 h'
      rw [text_cons, text_cons, piece_text_append, piece_text_append] at heq
      obtain ⟨hgaps, hrest⟩ := Text.append_pair_inj hgap hgap' heq
      obtain ⟨hbodies, htext⟩ := Text.append_pair_inj hbody hbody' hrest
      have hpiece : piece = piece' := by
        cases piece
        cases piece'
        exact Piece.mk.injEq .. ▸ ⟨hgaps, hbodies⟩
      rw [hpiece, ih hlayout hother htext]

end Layout

/-! ## What a body spells -/

/-- Whether a character is a letter or digit of ASCII, an underscore or a hyphen. -/
def IsNameChar (c : Char) : Prop :=
  ('A' ≤ c ∧ c ≤ 'Z') ∨ ('a' ≤ c ∧ c ≤ 'z') ∨ ('0' ≤ c ∧ c ≤ '9') ∨ c = '_' ∨ c = '-'

instance (c : Char) : Decidable (IsNameChar c) :=
  inferInstanceAs (Decidable (('A' ≤ c ∧ c ≤ 'Z') ∨ ('a' ≤ c ∧ c ≤ 'z') ∨ ('0' ≤ c ∧ c ≤ '9')
    ∨ c = '_' ∨ c = '-'))

/-- Whether the body of a substitution, without the blanks around it, is the lead of a qualifier
    and a name. -/
structure Spells (body : List Char) (qualifier : Qualifier) (name : List Char) : Prop where
  trim_eq : Text.trim body = qualifier.lead ++ name
  name_ne_nil : name ≠ []
  isNameChar : ∀ c ∈ name, IsNameChar c

/-- The references of the closed substitutions `pieces`, which stand after the text `before`: one
    for each body that spells a reference, in order. -/
inductive Listed : (before : List Char) → (pieces : List Piece) → List Reference → Prop where
  | nil {before : List Char} : Listed before [] []
  | reference {before : List Char} {piece : Piece} {pieces : List Piece} {found : List Reference}
      {qualifier : Qualifier} {name : List Char} (hbody : Spells piece.body qualifier name)
      (hrest : Listed (before ++ piece.text) pieces found) :
      Listed before (piece :: pieces)
        ({ name := String.ofList name
           path := String.ofList (Text.trim piece.body)
           qualifier := qualifier
           range :=
            { start := Position.after (before ++ piece.gap)
              stop := Position.after (before ++ piece.text) } } :: found)
  | other {before : List Char} {piece : Piece} {pieces : List Piece} {found : List Reference}
      (hbody : ∀ qualifier name, ¬ Spells piece.body qualifier name)
      (hrest : Listed (before ++ piece.text) pieces found) : Listed before (piece :: pieces) found

theorem isNameChar_iff (c : Char) : Reference.isNameChar c = true ↔ IsNameChar c := by
  have hchar : Reference.isNameChar c
      = ((decide ('A' ≤ c ∧ c ≤ 'Z') || decide ('a' ≤ c) && decide (c ≤ 'z')
        || decide ('0' ≤ c) && decide (c ≤ '9')) || c == '_' || c == '-') := rfl
  simp only [hchar, IsNameChar, Bool.or_eq_true, Bool.and_eq_true, decide_eq_true_eq, beq_iff_eq,
    or_assoc]

/-- The qualifier of a path can be told from its start alone: no path has both leads. -/
theorem Qualifier.ofPath_lead_append (qualifier : Qualifier) (name : List Char) :
    Qualifier.ofPath (qualifier.lead ++ name) = qualifier := by
  cases qualifier <;> rfl

theorem isPath_iff (path : List Char) :
    Reference.isPath path = true
      ↔ ∃ (qualifier : Qualifier) (name : List Char), path = qualifier.lead ++ name ∧ name ≠ []
        ∧ ∀ c ∈ name, IsNameChar c := by
  have hlead : ∀ qualifier : Qualifier,
      (qualifier.lead.isPrefixOf path && !(path.drop qualifier.lead.length).isEmpty
        && (path.drop qualifier.lead.length).all Reference.isNameChar) = true
      ↔ ∃ name, path = qualifier.lead ++ name ∧ name ≠ [] ∧ ∀ c ∈ name, IsNameChar c := by
    intro qualifier
    rw [Bool.and_eq_true, Bool.and_eq_true, List.isPrefixOf_iff_prefix]
    constructor
    · rintro ⟨⟨⟨name, rfl⟩, hne⟩, hall⟩
      rw [List.drop_left] at hne hall
      refine ⟨name, rfl, by simpa using hne, fun c hc => ?_⟩
      exact (isNameChar_iff c).1 (List.all_eq_true.1 hall c hc)
    · rintro ⟨name, rfl, hne, hall⟩
      rw [List.drop_left]
      refine ⟨⟨List.prefix_append _ _, by simpa using hne⟩, List.all_eq_true.2 fun c hc => ?_⟩
      exact (isNameChar_iff c).2 (hall c hc)
  simp only [Reference.isPath, List.any_cons, List.any_nil, Bool.or_false, Bool.or_eq_true,
    ← Bool.and_assoc, hlead]
  constructor
  · rintro (⟨name, h⟩ | ⟨name, h⟩)
    · exact ⟨.pipeline, name, h⟩
    · exact ⟨.localScope, name, h⟩
  · rintro ⟨qualifier, name, h⟩
    cases qualifier with
    | pipeline => exact Or.inl ⟨name, h⟩
    | localScope => exact Or.inr ⟨name, h⟩

theorem ofBody?_eq_some {body name : List Char} {qualifier : Qualifier}
    (h : Spells body qualifier name) (range : Range) :
    Reference.ofBody? body range
      = some { name := String.ofList name, path := String.ofList (Text.trim body), qualifier, range } := by
  have hpath : Reference.isPath (Text.trim body) = true :=
    (isPath_iff _).2 ⟨qualifier, name, h.trim_eq, h.name_ne_nil, h.isNameChar⟩
  simp only [Reference.ofBody?, if_pos hpath]
  rw [h.trim_eq, Qualifier.ofPath_lead_append, List.drop_left]

theorem ofBody?_eq_none {body : List Char} (h : ∀ qualifier name, ¬ Spells body qualifier name)
    (range : Range) : Reference.ofBody? body range = none := by
  have hpath : ¬ Reference.isPath (Text.trim body) = true := by
    rw [isPath_iff]
    rintro ⟨qualifier, name, htrim, hne, hall⟩
    exact h qualifier name ⟨htrim, hne, hall⟩
  simp only [Reference.ofBody?, if_neg hpath]

/-- A path can be cut after the lead of its qualifier: the lead is there, and ends where a
    character ends. -/
theorem dropBytes?_lead {path : List Char} (h : Reference.isPath path = true) :
    Text.dropBytes? path (Text.byteLength (Qualifier.ofPath path).lead)
      = some (path.drop (Qualifier.ofPath path).lead.length) := by
  obtain ⟨qualifier, name, rfl, -, -⟩ := (isPath_iff path).1 h
  rw [Qualifier.ofPath_lead_append, List.drop_left, Text.dropBytes?_append]

/-! ## Reading along a layout -/

namespace Reference

theorem scanText_cons {p : Position} {c : Char} {rest : List Char}
    (h : ¬ (c = '<' ∧ ∃ more, rest = '<' :: more)) :
    scanText p (c :: rest) = scanText (p.advance c) rest := by
  rw [scanText]
  rintro more rfl rfl
  exact h ⟨rfl, more, rfl⟩

theorem scanBody_cons {start p : Position} {body : List Char} {c : Char} {rest : List Char}
    (h : ¬ (c = '>' ∧ ∃ more, rest = '>' :: more)) :
    scanBody start p body (c :: rest) = scanBody start (p.advance c) (c :: body) rest := by
  rw [scanBody]
  rintro more rfl rfl
  exact h ⟨rfl, more, rfl⟩

theorem scanText_of_not_holdsPair {text : List Char} (h : ¬ Text.HoldsPair '<' text)
    (p : Position) : scanText p text = .ok [] := by
  induction text generalizing p with
  | nil => rw [scanText]
  | cons c text ih =>
    rw [Text.holdsPair_cons, not_or] at h
    rw [scanText_cons h.1, ih h.2]

theorem scanText_gap {gap : List Char} (h : ¬ Text.HoldsPair '<' (gap ++ ['<'])) (p : Position)
    (rest : List Char) :
    scanText p (gap ++ '<' :: '<' :: rest)
      = scanBody (p.advanceBy gap) (p.advanceBy (gap ++ ['<', '<'])) [] rest := by
  induction gap generalizing p with
  | nil => rw [List.nil_append, scanText]; rfl
  | cons c gap ih =>
    rw [List.cons_append, Text.holdsPair_cons, not_or] at h
    -- `c` opens nothing here, just as it opens nothing before a single `<`
    have hc : ¬ (c = '<' ∧ ∃ more, gap ++ '<' :: '<' :: rest = '<' :: more) := by
      rw [Text.exists_append_eq_cons]
      exact h.1
    rw [List.cons_append, scanText_cons hc, ih h.2]
    rfl

theorem scanBody_of_not_holdsPair {text : List Char} (h : ¬ Text.HoldsPair '>' text)
    (start p : Position) (body : List Char) : scanBody start p body text = .error ⟨start⟩ := by
  induction text generalizing p body with
  | nil => rw [scanBody]
  | cons c text ih =>
    rw [Text.holdsPair_cons, not_or] at h
    rw [scanBody_cons h.1, ih h.2]

/-- A body is read up to the `>>` after it; then reading goes on outside. -/
theorem scanBody_body {body : List Char} (h : ¬ Text.HoldsPair '>' (body ++ ['>']))
    (start p : Position) (read rest : List Char) :
    scanBody start p read (body ++ '>' :: '>' :: rest)
      = (scanText (p.advanceBy (body ++ ['>', '>'])) rest).map fun found =>
          (ofBody? (read.reverse ++ body) ⟨start, p.advanceBy (body ++ ['>', '>'])⟩).toList
            ++ found := by
  induction body generalizing p read with
  | nil =>
    rw [List.nil_append, scanBody, List.append_nil, List.nil_append]
    simp only [Position.advanceBy_cons, Position.advanceBy_nil]
    cases scanText ((p.advance '>').advance '>') rest <;> rfl
  | cons c body ih =>
    rw [List.cons_append, Text.holdsPair_cons, not_or] at h
    have hc : ¬ (c = '>' ∧ ∃ more, body ++ '>' :: '>' :: rest = '>' :: more) := by
      rw [Text.exists_append_eq_cons]
      exact h.1
    rw [List.cons_append, scanBody_cons hc, ih h.2, List.reverse_cons, List.append_assoc]
    rfl

theorem scanText_piece {piece : Piece} (hgap : ¬ Text.HoldsPair '<' (piece.gap ++ ['<']))
    (hbody : ¬ Text.HoldsPair '>' (piece.body ++ ['>'])) (before rest : List Char) :
    scanText (.after before) (piece.text ++ rest)
      = (scanText (.after (before ++ piece.text)) rest).map fun found =>
          (ofBody? piece.body
            ⟨.after (before ++ piece.gap), .after (before ++ piece.text)⟩).toList ++ found := by
  rw [Layout.piece_text_append, scanText_gap hgap, scanBody_body hbody, ← Position.advanceBy_append]
  simp only [Position.advanceBy_after, Piece.text, substitution, List.append_assoc, List.cons_append,
    List.nil_append, List.reverse_nil]

theorem scanText_error {layout : Layout} (h : layout.WellFormed) {tail : List Char}
    (htail : layout.tail = some tail) (before : List Char) :
    scanText (.after before) layout.text
      = .error ⟨.after (before ++ Layout.closedText layout.closed ++ layout.last)⟩ := by
  induction layout using Layout.cases_closed generalizing before with
  | last last => simp at htail
  | tail last tail' =>
    obtain ⟨hlast, hopen⟩ := h.tail tail' rfl
    rw [Layout.text_tail, scanText_gap hlast, scanBody_of_not_holdsPair hopen,
      Position.advanceBy_after]
    simp [Layout.closedText]
  | cons piece layout ih =>
    obtain ⟨hgap, hbody, hlayout⟩ := Layout.wellFormed_cons.1 h
    rw [Layout.text_cons, scanText_piece hgap hbody, ih hlayout htail]
    simp [Layout.cons, Layout.closedText, Except.map]

/-- Without an open end the bodies that spell references are listed. -/
theorem scanText_ok {layout : Layout} (h : layout.WellFormed) (htail : layout.tail = none)
    (before : List Char) :
    ∃ found, scanText (.after before) layout.text = .ok found
      ∧ Listed before layout.closed found := by
  induction layout using Layout.cases_closed generalizing before with
  | last last =>
    refine ⟨[], ?_, .nil⟩
    rw [Layout.text_last, scanText_of_not_holdsPair (h.last rfl)]
  | tail last tail => simp at htail
  | cons piece layout ih =>
    obtain ⟨hgap, hbody, hlayout⟩ := Layout.wellFormed_cons.1 h
    -- the rest is read from after this piece, whatever its body spells
    obtain ⟨found, hfound, hlisted⟩ := ih hlayout htail (before ++ piece.text)
    rw [Layout.text_cons, scanText_piece hgap hbody, hfound]
    by_cases hspells : ∃ qualifier name, Spells piece.body qualifier name
    · obtain ⟨qualifier, name, hspells⟩ := hspells
      rw [ofBody?_eq_some hspells]
      exact ⟨_, rfl, .reference hspells hlisted⟩
    · simp only [not_exists] at hspells
      rw [ofBody?_eq_none hspells]
      exact ⟨found, rfl, .other hspells hlisted⟩

/-- A text without `<<` is passed over, unless its last `<` opens a pair with what follows. -/
theorem scanText_append_of_not_holdsPair {gap more : List Char} (hgap : ¬ Text.HoldsPair '<' gap)
    (hseam : gap.getLast? = some '<' → more.head? ≠ some '<') (p : Position) :
    scanText p (gap ++ more) = scanText (p.advanceBy gap) more := by
  induction gap generalizing p with
  | nil => rfl
  | cons c gap ih =>
    rw [Text.holdsPair_cons, not_or] at hgap
    obtain ⟨hhead, hgap⟩ := hgap
    have hc : ¬ (c = '<' ∧ ∃ rest, gap ++ more = '<' :: rest) := by
      rintro ⟨rfl, rest, hrest⟩
      cases gap with
      | nil => exact hseam rfl (by rw [← List.nil_append more, hrest]; rfl)
      | cons d gap =>
        obtain ⟨rfl, -⟩ := List.cons.inj hrest
        exact hhead ⟨rfl, gap, rfl⟩
    have hseam' : gap.getLast? = some '<' → more.head? ≠ some '<' := by
      intro hlast
      exact hseam (by rw [List.getLast?_cons, hlast]; rfl)
    rw [List.cons_append, scanText_cons hc, ih hgap hseam', Position.advanceBy_cons]

/-- A text that can be read is read on after its end as if it had been read alone. -/
theorem scanText_append {layout : Layout} (h : layout.WellFormed) {before more : List Char}
    {found : List Reference} (hfound : scanText (.after before) layout.text = .ok found)
    (hseam : layout.text.getLast? = some '<' → more.head? ≠ some '<') :
    scanText (.after before) (layout.text ++ more)
      = (scanText (.after (before ++ layout.text)) more).map (found ++ ·) := by
  induction layout using Layout.cases_closed generalizing before found with
  | last last =>
    rw [Layout.text_last] at hfound hseam ⊢
    have hlast := h.last rfl
    rw [scanText_of_not_holdsPair hlast] at hfound
    obtain rfl := Except.ok.inj hfound
    rw [scanText_append_of_not_holdsPair hlast hseam, Position.advanceBy_after]
    cases scanText (.after (before ++ last)) more <;> rfl
  | tail last tail =>
    rw [scanText_error h rfl] at hfound
    exact absurd hfound (by simp)
  | cons piece layout ih =>
    obtain ⟨hgap, hbody, hlayout⟩ := Layout.wellFormed_cons.1 h
    rw [Layout.text_cons] at hfound hseam ⊢
    rw [scanText_piece hgap hbody] at hfound
    -- the seam is after the last gap, so the piece is not concerned
    have hseam' : layout.text.getLast? = some '<' → more.head? ≠ some '<' := by
      intro hlast
      exact hseam (by rw [List.getLast?_append, hlast]; rfl)
    cases hrest : scanText (.after (before ++ piece.text)) layout.text with
    | error failure => simp [hrest, Except.map] at hfound
    | ok rest =>
      rw [hrest] at hfound
      obtain rfl := Except.ok.inj hfound
      rw [List.append_assoc, scanText_piece hgap hbody, ih hlayout hrest hseam', List.append_assoc]
      cases scanText (.after (before ++ (piece.text ++ layout.text))) more with
      | error failure => rfl
      | ok found => simp [Except.map]

end Reference

theorem exists_layout_of_references {text : List Char} {found : List Reference}
    (h : references text = .ok found) :
    ∃ layout : Layout, layout.WellFormed ∧ layout.text = text ∧ layout.tail = none
      ∧ Listed [] layout.closed found := by
  obtain ⟨layout, hlayout, rfl⟩ := Layout.exists_wellFormed text
  cases htail : layout.tail with
  | none =>
    obtain ⟨found', hfound', hlisted⟩ := Reference.scanText_ok hlayout htail []
    have hsame : found = found' := Except.ok.inj (h.symm.trans hfound')
    exact ⟨layout, hlayout, rfl, htail, hsame ▸ hlisted⟩
  | some tail =>
    have herror := Reference.scanText_error hlayout htail []
    exact absurd (h.symm.trans herror) (by simp)

/-- **The grammar of references.** A text of fewer than `2 ^ 32` characters has exactly one layout.
    If the layout ends in a `<<` that is not closed, reading the references fails there. Otherwise
    it lists, in order, the references that the bodies spell, each with the range from its `<<` to
    just after its `>>`. The positions are the true ones, no coordinate being cut off, and a path
    that is found can always be cut after the lead of its qualifier. -/
theorem references_eq_of_layout (text : List Char) (hsize : text.length < UInt32.size) :
    (∃! layout : Layout, layout.WellFormed ∧ layout.text = text)
    ∧ (∀ layout : Layout, layout.WellFormed → layout.text = text →
        (∀ tail, layout.tail = some tail →
          references text
            = .error ⟨.after (Layout.closedText layout.closed ++ layout.last)⟩)
        ∧ (layout.tail = none →
            ∃ found, references text = .ok found ∧ Listed [] layout.closed found))
    ∧ (∀ before, before <+: text →
        (Position.after before).line.toNat = before.count '\n'
        ∧ (Position.after before).character.toNat = (Text.lastLine before).length)
    ∧ (∀ path, Reference.isPath path = true →
        Text.dropBytes? path (Text.byteLength (Qualifier.ofPath path).lead)
          = some (path.drop (Qualifier.ofPath path).lead.length)) := by
  refine ⟨?_, ?_, ?_, fun path hpath => dropBytes?_lead hpath⟩
  · obtain ⟨layout, hlayout, htext⟩ := Layout.exists_wellFormed text
    refine ⟨layout, ⟨hlayout, htext⟩, ?_⟩
    rintro other ⟨hother, htext'⟩
    exact hother.eq_of_text_eq hlayout (htext'.trans htext.symm)
  · rintro layout hlayout rfl
    refine ⟨fun tail htail => ?_, fun htail => ?_⟩
    · exact Reference.scanText_error hlayout htail []
    · exact Reference.scanText_ok hlayout htail []
  · intro before hbefore
    have hlength : before.length < UInt32.size := hbefore.length_le.trans_lt hsize
    exact ⟨Position.toNat_line_after hlength, Position.toNat_character_after hlength⟩

/-- In `<<< a >>>` the first two of each three count, and the `<<` on the second line stays open. -/
theorem references_eq_of_layout_overlapping :
    "<<< a >>>\n<< b".toList.length < UInt32.size
      ∧ references "<<< a >>>\n<< b".toList = .error ⟨⟨1, 0⟩⟩ := by
  refine ⟨by decide, ?_⟩
  obtain ⟨-, hread, -⟩ := references_eq_of_layout "<<< a >>>\n<< b".toList (by decide)
  have hlayout : Layout.WellFormed ⟨[⟨[], "< a ".toList⟩], ">\n".toList, some " b".toList⟩ := by
    refine ⟨by decide, by decide, by simp, fun tail htail => ?_⟩
    obtain rfl := Option.some.inj htail
    decide
  exact (hread _ hlayout rfl).1 _ rfl

end PipelineLint
