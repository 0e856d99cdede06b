import PipelineLint.Proofs.LoneReferences
import PipelineLint.Proofs.Placement

set_option autoImplicit false

/-! # How a lone reference is written

`loneReference?` never looks at the characters around a reference. It lists the references of the
trimmed text and compares the range of the only one with that of the whole trimmed text. That is
enough: below `2 ^ 32` characters different first parts of a text end at different positions, so a
range from the origin to the end leaves no room for another substitution, a further `>` or anything
else. What is recognised is one substitution with blanks around it and around the path in it
(`LoneSpelling`), and it can be read in one way only (`loneReference?_of_spelling`). -/

namespace PipelineLint

/-! ## Trimming -/

namespace Text

theorem dropWhile_surrounded {p : Char → Bool} {lead core : List Char}
    (hlead : ∀ c ∈ lead, p c = true) (hcore : ∀ c, core.head? = some c → p c = false) :
    (lead ++ core).dropWhile p = core := by
  rw [List.dropWhile_append_of_pos hlead]
  cases core with
  | nil => rfl
  | cons c core => rw [List.dropWhile_cons_of_neg (by simp [hcore c rfl])]

/-- Trimming takes off the blanks around a text that neither starts nor ends with a blank. -/
theorem trim_surrounded {lead core trail : List Char} (hne : core ≠ [])
    (hlead : ∀ c ∈ lead, isBlank c = true) (htrail : ∀ c ∈ trail, isBlank c = true)
    (hhead : ∀ c, core.head? = some c → isBlank c = false)
    (hlast : ∀ c, core.getLast? = some c → isBlank c = false) :
    trim (lead ++ (core ++ trail)) = core := by
  have hfront : (lead ++ (core ++ trail)).dropWhile isBlank = core ++ trail := by
    apply dropWhile_surrounded hlead
    intro c hc
    rw [List.head?_append_of_ne_nil _ hne] at hc
    exact hhead c hc
  have hback : (trail.reverse ++ core.reverse).dropWhile isBlank = core.reverse := by
    apply dropWhile_surrounded
    · simpa using htrail
    · simpa using hlast
  rw [trim, hfront, dropEndWhile, List.reverse_append, hback, List.reverse_reverse]

theorem length_trim_le (text : List Char) : (trim text).length ≤ text.length := by
  obtain ⟨lead, trail, htext, -, -⟩ := exists_trim text
  have hlength := congrArg List.length htext
  rw [List.length_append, List.length_append] at hlength
  omega

theorem isBlank_eq_false_of_isNameChar {c : Char} (h : IsNameChar c) : isBlank c = false := by
  have hname : (65 ≤ c.toNat ∧ c.toNat ≤ 90) ∨ (97 ≤ c.toNat ∧ c.toNat ≤ 122)
      ∨ (48 ≤ c.toNat ∧ c.toNat ≤ 57) ∨ c.toNat = 95 ∨ c.toNat = 45 := by
    rcases h with h | h | h | rfl | rfl
    · exact Or.inl h
    · exact Or.inr (Or.inl h)
    · exact Or.inr (Or.inr (Or.inl h))
    · decide
    · decide
  rw [isBlank, List.any_eq_false]
  intro run hrun
  simp only [blankRuns, List.mem_cons, List.not_mem_nil, or_false] at hrun
  rcases hrun with rfl | rfl | rfl | rfl | rfl | rfl | rfl | rfl | rfl | rfl <;> simp <;> omega

end Text

/-! ## Spellings -/

theorem Qualifier.head?_lead_append (qualifier : Qualifier) (name : List Char) :
    (qualifier.lead ++ name).head? = some 'p' := by
  cases qualifier <;> rfl

/-- A way to read a text as one reference: the substitution of a path, with blanks around it and
    around the path. -/
structure LoneSpelling (text : List Char) where
  qualifier : Qualifier
  name : List Char
  /-- The blanks before the `<<`. -/
  before : List Char
  /-- The blanks after the `<<`. -/
  opening : List Char
  /-- The blanks before the `>>`. -/
  closing : List Char
  /-- The blanks after the `>>`. -/
  behind : List Char
  text_eq : text = before ++ "<<".toList ++ opening ++ qualifier.lead ++ name ++ closing
    ++ ">>".toList ++ behind
  isBlank : ∀ c ∈ before ++ opening ++ closing ++ behind, Text.isBlank c = true
  name_ne_nil : name ≠ []
  isNameChar : ∀ c ∈ name, IsNameChar c

namespace LoneSpelling

variable {text : List Char} (spelling : LoneSpelling text)

/-- What stands between the `<<` and the `>>`. -/
def body : List Char :=
  spelling.opening ++ ((spelling.qualifier.lead ++ spelling.name) ++ spelling.closing)

/-- The reference that the spelling stands for. -/
def reference : Reference where
  name := String.ofList spelling.name
  path := String.ofList (spelling.qualifier.lead ++ spelling.name)
  qualifier := spelling.qualifier
  range := ⟨.origin, .after (Text.trim text)⟩

theorem text_eq_substitution :
    text = spelling.before ++ (substitution spelling.body ++ spelling.behind) := by
  have htext := spelling.text_eq
  simp only [List.append_assoc] at htext
  simpa [substitution, body] using htext

theorem isBlank_around {blanks : List Char}
    (h : blanks ∈ [spelling.before, spelling.opening, spelling.closing, spelling.behind]) :
    ∀ c ∈ blanks, Text.isBlank c = true := by
  intro c hc
  apply spelling.isBlank
  simp only [List.mem_cons, List.not_mem_nil, or_false] at h
  rcases h with rfl | rfl | rfl | rfl <;> simp [hc]

theorem spells_body : Spells spelling.body spelling.qualifier spelling.name := by
  refine ⟨?_, spelling.name_ne_nil, spelling.isNameChar⟩
  apply Text.trim_surrounded
  · simp [spelling.name_ne_nil]
  · exact spelling.isBlank_around (by simp)
  · exact spelling.isBlank_around (by simp)
  · intro c hc
    rw [Qualifier.head?_lead_append] at hc
    obtain rfl := Option.some.inj hc
    decide
  · intro c hc
    rw [List.getLast?_append_of_ne_nil _ spelling.name_ne_nil] at hc
    exact Text.isBlank_eq_false_of_isNameChar (spelling.isNameChar c (List.mem_of_getLast? hc))

theorem trim_text : Text.trim text = substitution spelling.body := by
  have htrim : Text.trim (spelling.before ++ (substitution spelling.body ++ spelling.behind))
      = substitution spelling.body := by
    apply Text.trim_surrounded
    · simp [substitution]
    · exact spelling.isBlank_around (by simp)
    · exact spelling.isBlank_around (by simp)
    · intro c hc
      obtain rfl : '<' = c := by simpa [substitution] using hc
      decide
    · intro c hc
      obtain rfl : '>' = c := by simpa [substitution, List.getLast?_cons] using hc
      decide
  rwa [← spelling.text_eq_substitution] at htrim

/-- Nothing in the body can close the substitution early. -/
theorem not_mem_body : '>' ∉ spelling.body := by
  have hblank : ∀ blanks ∈ [spelling.before, spelling.opening, spelling.closing, spelling.behind],
      '>' ∉ blanks := by
    intro blanks hblanks hmem
    exact absurd (spelling.isBlank_around hblanks '>' hmem) (by decide)
  have hlead : '>' ∉ spelling.qualifier.lead := by
    cases spelling.qualifier <;> decide
  have hname : '>' ∉ spelling.name := by
    intro hmem
    exact absurd (spelling.isNameChar '>' hmem) (by decide)
  simp only [body, List.mem_append, not_or]
  exact ⟨hblank _ (by simp), ⟨hlead, hname⟩, hblank _ (by simp)⟩

end LoneSpelling

/-! ## Recognition -/

/-- A substitution that spells a reference, and that nothing closes early, is read as that
    reference. -/
theorem references_substitution {body name : List Char} {qualifier : Qualifier}
    (hbody : Spells body qualifier name) (hclose : '>' ∉ body) :
    references (substitution body)
      = .ok [{ name := String.ofList name
               path := String.ofList (qualifier.lead ++ name)
               qualifier := qualifier
               range := ⟨.origin, .after (substitution body)⟩ }] := by
  have hgap : ¬ Text.HoldsPair '<' ([] ++ ['<']) := by decide
  have hpair : ¬ Text.HoldsPair '>' (body ++ ['>']) := by
    intro hholds
    have hcount := List.Sublist.count_le '>' hholds.sublist
    rw [List.count_append, List.count_eq_zero.2 hclose] at hcount
    exact absurd hcount (by decide)
  have hread := @Reference.scanText_piece ⟨[], body⟩ hgap hpair [] []
  rw [ofBody?_eq_some hbody, hbody.trim_eq, Reference.scanText] at hread
  have horigin : Position.after [] = Position.origin := rfl
  simpa [references, Piece.text, Except.map, horigin] using hread

theorem LoneSpelling.loneReference?_eq {text : List Char} (spelling : LoneSpelling text) :
    loneReference? text = some spelling.reference := by
  rw [loneReference?_eq_some_iff, spelling.trim_text]
  refine ⟨?_, by rw [reference, spelling.trim_text]⟩
  rw [references_substitution spelling.spells_body spelling.not_mem_body, reference,
    spelling.trim_text]

/-- Below `2 ^ 32` characters, a reference whose range is that of the whole text is the whole text. -/
theorem exists_substitution_of_range_eq {text : List Char} (hsize : text.length < UInt32.size)
    {reference : Reference} (hfound : references text = .ok [reference])
    (hrange : reference.range = ⟨Position.origin, Position.after text⟩) :
    ∃ body, text = substitution body ∧ Spells body reference.qualifier reference.name.toList := by
  obtain ⟨lead, body, hwritten, hspells, hactual⟩ :=
    exists_standsAt_of_mem_references hfound (List.mem_singleton.2 rfl)
  rw [hrange, actualRange, Range.mk.injEq] at hactual
  obtain ⟨hstart, hstop⟩ := hactual
  -- nothing stands before a start at the origin, and nothing after a stop at the end
  have hlead : [] = lead := by
    apply Position.eq_of_after_eq_after List.nil_prefix _ hstart
    have hlength := hwritten.length_le
    rw [List.length_append] at hlength
    omega
  subst hlead
  exact ⟨body, (Position.eq_of_after_eq_after hwritten hsize hstop.symm).symm, hspells⟩

theorem exists_loneSpelling {text : List Char} (hsize : text.length < UInt32.size)
    {reference : Reference} (h : loneReference? text = some reference) :
    Nonempty (LoneSpelling text) := by
  obtain ⟨hfound, hrange⟩ := loneReference?_eq_some_iff.1 h
  obtain ⟨before, behind, htext, hbefore, hbehind⟩ := Text.exists_trim text
  have htrim : (Text.trim text).length < UInt32.size := (Text.length_trim_le text).trans_lt hsize
  obtain ⟨body, hsubstitution, hspells⟩ := exists_substitution_of_range_eq htrim hfound hrange
  obtain ⟨opening, closing, hbody, hopening, hclosing⟩ := Text.exists_trim body
  refine ⟨{ qualifier := reference.qualifier, name := reference.name.toList, before, opening,
            closing, behind, text_eq := ?_, isBlank := ?_, name_ne_nil := hspells.name_ne_nil,
            isNameChar := hspells.isNameChar }⟩
  · rw [hspells.trim_eq] at hbody
    rw [htext, hsubstitution, hbody]
    simp [substitution]
  · intro c hc
    simp only [List.mem_append] at hc
    rcases hc with ((hc | hc) | hc) | hc
    · exact hbefore c hc
    · exact hopening c hc
    · exact hclosing c hc
    · exact hbehind c hc

/-- **Lone references.** A text of fewer than `2 ^ 32` characters is recognised as a lone reference
    exactly if it is a substitution with blanks around it and around the path in it. The result then
    has the name and the qualifier of the path, the path itself, and the range of the whole trimmed
    text, in which no coordinate is cut off. There is only one way to read the path. -/
theorem loneReference?_of_spelling (text : List Char) (hsize : text.length < UInt32.size) :
    ((loneReference? text).isSome = true ↔ Nonempty (LoneSpelling text))
    ∧ (∀ spelling : LoneSpelling text, loneReference? text = some spelling.reference)
    ∧ (∀ spelling other : LoneSpelling text,
        spelling.qualifier = other.qualifier ∧ spelling.name = other.name)
    ∧ (Position.after (Text.trim text)).line.toNat = (Text.trim text).count '\n'
    ∧ (Position.after (Text.trim text)).character.toNat
      = (Text.lastLine (Text.trim text)).length := by
  have htrim : (Text.trim text).length < UInt32.size := (Text.length_trim_le text).trans_lt hsize
  refine ⟨?_, fun spelling => spelling.loneReference?_eq, ?_, Position.toNat_line_after htrim,
    Position.toNat_character_after htrim⟩
  · rw [Option.isSome_iff_exists]
    constructor
    · rintro ⟨reference, h⟩
      exact exists_loneSpelling hsize h
    · rintro ⟨spelling⟩
      exact ⟨_, spelling.loneReference?_eq⟩
  · -- two ways to read the text would be two results
    intro spelling other
    have hsame := spelling.loneReference?_eq.symm.trans other.loneReference?_eq
    obtain ⟨hname, -, hqualifier, -⟩ := Reference.mk.inj (Option.some.inj hsame)
    exact ⟨hqualifier, String.ofList_injective hname⟩

/-- A further `>` does not belong to the substitution. -/
example : loneReference? "<< parameters.tag >>>".toList = none := by decide +kernel

/-- A no-break space after the `<<` and line ends around the `>>` are blanks like any other. -/
theorem loneReference?_of_spelling_blanks :
    let text := " <<\u00a0parameters.a-1\n>>\n".toList
    text.length < UInt32.size
      ∧ loneReference? text
        = some { name := "a-1", path := "parameters.a-1", qualifier := .localScope
                 range := ⟨⟨0, 0⟩, ⟨1, 2⟩⟩ } := by
  intro text
  refine ⟨by decide, ?_⟩
  let spelling : LoneSpelling text :=
    { qualifier := .localScope, name := "a-1".toList, before := [' '], opening := ['\u00a0']
      closing := ['\n'], behind := ['\n'], text_eq := by decide
      isBlank := List.all_eq_true.1 (by decide), name_ne_nil := by decide
      isNameChar := fun c hc =>
        (isNameChar_iff c).1 (List.all_eq_true.1 (show "a-1".toList.all _ = true by decide) c hc) }
  exact ((loneReference?_of_spelling text (by decide)).2.1 spelling).trans (by decide +kernel)

end PipelineLint
