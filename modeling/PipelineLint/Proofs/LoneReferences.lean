import PipelineLint.Check.References
import PipelineLint.Proofs.Typing

set_option autoImplicit false

/-! # Values that are nothing but a reference

Such a value is looked at twice. The check of references reads the raw text of its scalar, from the
place of the scalar; the check of values trims the text first and looks from the place of the call.
Blanks around a text change where its references stand but not what they name
(`references_surrounded`), and two places inside the same definitions see the same parameters. So
the two checks agree on what the reference names, and share the work: the first reports a reference
that names nothing, the second one that names a parameter of another kind
(`loneReference_reported_once`). -/

namespace PipelineLint

/-! ## Blanks around a text -/

namespace Text

theorem exists_trim (text : List Char) :
    ∃ lead trail, text = lead ++ (trim text ++ trail)
      ∧ (∀ c ∈ lead, isBlank c = true) ∧ ∀ c ∈ trail, isBlank c = true := by
  refine ⟨text.takeWhile isBlank, (text.dropWhile isBlank).rtakeWhile isBlank, ?_, ?_, ?_⟩
  · show text = text.takeWhile isBlank ++ ((text.dropWhile isBlank).rdropWhile isBlank ++ _)
    rw [List.rdropWhile_append_rtakeWhile, List.takeWhile_append_dropWhile]
  · intro c hc
    exact List.mem_takeWhile_imp hc
  · intro c hc
    exact List.mem_rtakeWhile_imp hc

theorem not_mem_of_isBlank {text : List Char} (h : ∀ c ∈ text, isBlank c = true) : '<' ∉ text := by
  intro hmem
  have hblank : isBlank '<' = true := h '<' hmem
  exact absurd hblank (by decide)

theorem not_holdsPair_of_not_mem {c : Char} {text : List Char} (h : c ∉ text) :
    ¬ HoldsPair c text := by
  intro hpair
  exact h (hpair.subset List.mem_cons_self)

end Text

/-- What a reference names, wherever it stands. -/
def Reference.target (reference : Reference) : Qualifier × String :=
  (reference.qualifier, reference.name)

theorem Listed.map_target {before : List Char} {pieces : List Piece} {found : List Reference}
    (h : Listed before pieces found) :
    found.map Reference.target
      = pieces.filterMap fun piece =>
          (Reference.ofBody? piece.body .absent).map Reference.target := by
  induction h with
  | nil => rfl
  | reference hbody hrest ih => simp [ofBody?_eq_some hbody, Reference.target, ih]
  | other hbody hrest ih => simp [ofBody?_eq_none hbody, ih]

/-- Texts that hold no `<`, put around a text, leave it with the references it has. -/
theorem references_surrounded {text lead trail : List Char} (hlead : '<' ∉ lead)
    (htrail : '<' ∉ trail) {found : List Reference} (hfound : references text = .ok found) :
    ∃ found', references (lead ++ (text ++ trail)) = .ok found'
      ∧ found'.map Reference.target = found.map Reference.target := by
  obtain ⟨layout, hlayout, rfl, htail, hlisted⟩ := exists_layout_of_references hfound
  obtain ⟨found', hfound', hlisted'⟩ := Reference.scanText_ok hlayout htail lead
  refine ⟨found', ?_, hlisted'.map_target.trans hlisted.map_target.symm⟩
  have hseam : lead.getLast? = some '<' → (layout.text ++ trail).head? ≠ some '<' := by
    intro hlast
    exact absurd (List.mem_of_getLast? hlast) hlead
  have hseam' : layout.text.getLast? = some '<' → trail.head? ≠ some '<' := by
    intro _ hhead
    exact absurd (List.mem_of_head? hhead) htrail
  calc references (lead ++ (layout.text ++ trail))
      = Reference.scanText (.after lead) (layout.text ++ trail) := by
        rw [references, Reference.scanText_append_of_not_holdsPair
          (Text.not_holdsPair_of_not_mem hlead) hseam, Position.origin_advanceBy]
    _ = (Reference.scanText (.after (lead ++ layout.text)) trail).map (found' ++ ·) :=
        Reference.scanText_append hlayout hfound' hseam'
    _ = .ok found' := by
        rw [Reference.scanText_of_not_holdsPair (Text.not_holdsPair_of_not_mem htrail)]
        simp [Except.map]

theorem loneReference?_eq_some_iff {text : List Char} {reference : Reference} :
    loneReference? text = some reference
      ↔ references (Text.trim text) = .ok [reference]
        ∧ reference.range = ⟨Position.origin, Position.after (Text.trim text)⟩ := by
  simp only [loneReference?, Position.origin_advanceBy]
  constructor
  · intro h
    split at h
    · next only honly =>
      split at h
      · next hrange =>
        obtain rfl := Option.some.inj h
        exact ⟨honly, hrange⟩
      · exact absurd h (by simp)
    · exact absurd h (by simp)
  · rintro ⟨honly, hrange⟩
    simp only [honly, if_pos hrange]

/-- A text that is nothing but a reference holds one that names the same, and no other. -/
theorem references_of_loneReference? {text : List Char} {reference : Reference}
    (h : loneReference? text = some reference) :
    ∃ found, references text = .ok [found] ∧ found.qualifier = reference.qualifier
      ∧ found.name = reference.name := by
  obtain ⟨lead, trail, htext, hlead, htrail⟩ := Text.exists_trim text
  obtain ⟨found, hfound, htargets⟩ := references_surrounded (Text.not_mem_of_isBlank hlead)
    (Text.not_mem_of_isBlank htrail) (loneReference?_eq_some_iff.1 h).1
  rw [← htext] at hfound
  obtain ⟨only, rfl, htarget⟩ := List.map_eq_singleton_iff.1 htargets
  obtain ⟨hqualifier, hname⟩ := Prod.mk.inj htarget
  exact ⟨only, hfound, hqualifier, hname⟩

/-! ## The two checks of a lone reference -/

namespace Check

theorem scalarNode_of_references_singleton (document : Document) {node : Node}
    {reference found : Reference} (hfound : references node.text.toList = .ok [found])
    (hqualifier : found.qualifier = reference.qualifier) (hname : found.name = reference.name) :
    scalarNode (.ofDocument document) node
      = match (Scopes.ofDocument document).resolve?
          ((Scopes.ofDocument document).visibleAt node.start) reference with
        | some _ => []
        | none =>
          [{ cause := .unresolved reference.qualifier reference.name
             range := node.kind.place node.start found.range }] := by
  have hresolve : (Scopes.ofDocument document).resolve?
      ((Scopes.ofDocument document).visibleAt node.start) found
      = (Scopes.ofDocument document).resolve?
          ((Scopes.ofDocument document).visibleAt node.start) reference := by
    rw [Scopes.resolve?, Scopes.resolve?, hqualifier, hname]
  simp only [scalarNode, hfound, List.filterMap_cons, List.filterMap_nil, Check.reference, hresolve,
    hqualifier, hname]
  cases (Scopes.ofDocument document).resolve? ((Scopes.ofDocument document).visibleAt node.start)
    reference <;> rfl

theorem value_of_isReference {site : Site} {value : Value} {reference : Reference}
    (h : value.IsReference reference) (declared : Parameter) (entity : String) :
    Check.value site value declared entity = forwarded site reference value declared entity := by
  rw [Check.value, Value.isReference_iff.2 h]

end Check

/-- **A lone reference is reported once.** Let a value be nothing but a reference, blanks around it
    apart, and let a scalar with the same text stand inside the same definitions as the place `p` of
    the call. If the reference names nothing there, the check of the scalar reports just that and
    the check of the value is silent. If it names a parameter, the check of the scalar is silent and
    the check of the value reports a parameter of another kind, and nothing else. So there is never
    more than one report. -/
theorem loneReference_reported_once (document : Document) (external : List String)
    (declared : Parameter) (entity : String) (value : Value) (text : String)
    (hvalue : value.payload = .string text) (reference : Reference)
    (hlone : loneReference? text.toList = some reference) (p : Position) (node : Node)
    (htext : node.text = text)
    (hplace : ∀ around, document.Holds around →
      around.definition.range.contains node.start = around.definition.range.contains p) :
    let scopes := Scopes.ofDocument document
    let swept := Check.scalarNode scopes node
    let typed := Check.value (.atPosition document external scopes p) value declared entity
    ((¬ ∃ parameter, document.Resolves p reference parameter) →
      (∃ found, references text.toList = .ok [found]
        ∧ swept = [{ cause := .unresolved reference.qualifier reference.name
                     range := node.kind.place node.start found.range }])
      ∧ typed = [])
    ∧ (∀ parameter, document.Resolves p reference parameter →
      swept = []
      ∧ typed = if parameter.kind = declared.kind then []
          else [{ cause := .wrongType declared.name declared.kind entity, range := value.range }])
    ∧ swept.length + typed.length ≤ 1 := by
  intro scopes swept typed
  subst htext
  obtain ⟨found, hfound, hqualifier, hname⟩ := references_of_loneReference? hlone
  have hvisible : scopes.visibleAt node.start = scopes.visibleAt p :=
    Scopes.visibleAt_eq_of_contains_eq hplace
  have hswept : swept = _ :=
    Check.scalarNode_of_references_singleton document hfound hqualifier hname
  rw [hvisible] at hswept
  have htyped : typed = Check.forwarded (.atPosition document external scopes p) reference value
      declared entity := Check.value_of_isReference ⟨node.text, hvalue, hlone⟩ declared entity
  simp only [Check.forwarded, Site.atPosition] at htyped
  cases hresolve : scopes.resolve? (scopes.visibleAt p) reference with
  | none =>
    simp only [scopes, hresolve] at hswept htyped
    refine ⟨fun _ => ⟨⟨found, hfound, hswept⟩, htyped⟩, ?_, ?_⟩
    · intro parameter hparameter
      have hsome := Scopes.resolve?_eq_some_iff.2 hparameter
      exact absurd (hresolve.symm.trans hsome) (by simp)
    · simp [hswept, htyped]
  | some resolved =>
    simp only [scopes, hresolve] at hswept htyped
    refine ⟨?_, ?_, ?_⟩
    · intro hnone
      exact absurd ⟨resolved, Scopes.resolve?_eq_some_iff.1 hresolve⟩ hnone
    · intro parameter hparameter
      have hsame := hresolve.symm.trans (Scopes.resolve?_eq_some_iff.2 hparameter)
      obtain rfl := Option.some.inj hsame
      exact ⟨hswept, htyped⟩
    · rw [hswept, htyped]
      split <;> simp

/-- A job declares an enumeration and forwards it, with blanks around the reference, to something
    that takes a string: only the check of the value has something to say. -/
theorem loneReference_reported_once_forwarded :
    let image : Parameter := { name := "image", type := .enum ["a"] }
    let job : Definition :=
      { name := "build", range := ⟨⟨2, 0⟩, ⟨9, 0⟩⟩, parameters := .ofList [("image", image)] }
    let document : Document := { jobs := .ofList [("build", job)] }
    let text := "\n << parameters.image >> "
    let value : Value := { payload := .string text, range := ⟨⟨4, 10⟩, ⟨5, 25⟩⟩ }
    let node : Node := { kind := .stringScalar, start := ⟨4, 10⟩, stop := ⟨5, 25⟩, text }
    let declared : Parameter := { name := "tag", type := .string }
    let scopes := Scopes.ofDocument document
    Check.scalarNode scopes node = []
      ∧ Check.value (.atPosition document [] scopes ⟨3, 6⟩) value declared "push"
        = [{ cause := .wrongType "tag" .string "push", range := value.range }] := by
  intro image job document text value node declared scopes
  let reference : Reference :=
    { name := "image", path := "parameters.image", qualifier := .localScope
      range := ⟨⟨0, 0⟩, ⟨0, 22⟩⟩ }
  have hlone : loneReference? text.toList = some reference := by decide +kernel
  have hplaces : ∀ around ∈ document.entities,
      around.definition.range.contains node.start = around.definition.range.contains ⟨3, 6⟩ := by
    decide +kernel
  have hresolves : document.Resolves ⟨3, 6⟩ reference image :=
    Scopes.resolve?_eq_some_iff.1 (by decide +kernel)
  obtain ⟨-, hnamed, -⟩ := loneReference_reported_once document [] declared "push" value text rfl
    reference hlone ⟨3, 6⟩ node rfl
    fun around haround => hplaces around (Document.mem_entities.2 haround)
  exact hnamed image hresolves

end PipelineLint
