import Mathlib.Data.List.Find
import PipelineLint.Proofs.Positions
import PipelineLint.Scopes

set_option autoImplicit false

/-! # The innermost definition

A place sees the parameters of one definition at most: the innermost one around it. Which one that
is can be said without sorting anything. `Entity.Precedes` puts definitions in a linear order, by
where they start, wider ones first, and then by how they are stored; of the definitions around a
place the innermost is the greatest (`Document.IsInnermost`).

`Scopes` sorts the blocks with the first two parts of that order only and takes the last one around
the place. The rest of the order is what a stable sort leaves as it was, so the two agree
(`innermost?_cases`). Everything else about scopes follows from `get?_visibleAt_of_isInnermost` and
`visibleAt_of_not_encloses`. -/

namespace PipelineLint

/-! ## Ranges as sets of places -/

namespace Range

theorem contains_iff {range : Range} {p : Position} :
    range.contains p = true ↔ range.start ≤ p ∧ p < range.stop := by
  simp [contains]

/-- Whether every place of one range is in another. -/
def Within (a b : Range) : Prop :=
  ∀ q, a.contains q = true → b.contains q = true

/-- Whether two ranges have no place in common. -/
def Apart (a b : Range) : Prop :=
  ∀ q, a.contains q = true → b.contains q = false

theorem Within.bounds {a b : Range} (h : a.Within b) {p : Position} (hp : a.contains p = true) :
    b.start ≤ a.start ∧ a.stop ≤ b.stop := by
  obtain ⟨hstart, hstop⟩ := contains_iff.1 hp
  have hfirst := contains_iff.1 (h a.start (contains_iff.2 ⟨le_rfl, hstart.trans_lt hstop⟩))
  refine ⟨hfirst.1, le_of_not_gt fun hlt => ?_⟩
  -- otherwise the end of `b` is a place of `a`
  have hlast := contains_iff.1 (h b.stop (contains_iff.2 ⟨hfirst.2.le, hlt⟩))
  exact lt_irrefl _ hlast.2

end Range

/-! ## The order of definitions -/

/-- A definition of a document with the sort and the name it is stored under. -/
structure Entity where
  kind : EntityKind
  key : String
  definition : Definition

/-- The place of a sort among the sorts: commands, then jobs, then executors. -/
def EntityKind.rank : EntityKind → Nat
  | command => 0
  | job => 1
  | executor => 2

namespace Entity

/-- Whether one definition is stored before another: its sort comes first, or its name. -/
def StoredBefore (a b : Entity) : Prop :=
  a.kind.rank < b.kind.rank ∨ (a.kind = b.kind ∧ a.key < b.key)

/-- Whether one definition comes before another: it starts earlier, or at the same place and ends
    later, or at the same places and is stored before. -/
def Precedes (a b : Entity) : Prop :=
  a.definition.range.start < b.definition.range.start
    ∨ (a.definition.range.start = b.definition.range.start
      ∧ (b.definition.range.stop < a.definition.range.stop
        ∨ (a.definition.range.stop = b.definition.range.stop ∧ a.StoredBefore b)))

theorem StoredBefore.asymm {a b : Entity} (h : a.StoredBefore b) : ¬ b.StoredBefore a := by
  rintro (hrank | ⟨hkind, hkey⟩)
  · rcases h with hrank' | ⟨hkind', -⟩
    · omega
    · rw [hkind'] at hrank
      omega
  · rcases h with hrank' | ⟨-, hkey'⟩
    · rw [hkind] at hrank'
      omega
    · exact String.lt_irrefl _ (String.lt_trans hkey hkey')

theorem Precedes.asymm {a b : Entity} (h : a.Precedes b) : ¬ b.Precedes a := by
  intro h'
  rcases h with hstart | ⟨hstart, hstop⟩
  · rcases h' with hstart' | ⟨hstart', -⟩
    · exact lt_asymm hstart hstart'
    · exact hstart.ne' hstart'
  · rcases h' with hstart' | ⟨-, hstop'⟩
    · exact hstart'.ne' hstart
    · rcases hstop with hstop | ⟨hstop, hstored⟩
      · rcases hstop' with hstop' | ⟨hstop', -⟩
        · exact lt_asymm hstop hstop'
        · exact hstop.ne hstop'
      · rcases hstop' with hstop' | ⟨-, hstored'⟩
        · exact hstop'.ne hstop
        · exact hstored.asymm hstored'

/-- The block of a definition. -/
def block (entity : Entity) : Block where
  range := entity.definition.range
  parameters := entity.definition.parameters

end Entity

/-! ## Definitions around a place -/

namespace Document

/-- Whether a document holds a definition where the entity says. -/
def Holds (document : Document) (entity : Entity) : Prop :=
  document.definition? entity.kind entity.key = some entity.definition

/-- Whether an entity is a definition of the document around a place. -/
structure Encloses (document : Document) (p : Position) (entity : Entity) : Prop where
  holds : document.Holds entity
  start_le : entity.definition.range.start ≤ p
  lt_stop : p < entity.definition.range.stop

/-- Whether an entity is the greatest of the definitions around a place. -/
structure IsInnermost (document : Document) (p : Position) (entity : Entity) : Prop where
  encloses : document.Encloses p entity
  greatest : ∀ other, document.Encloses p other → other = entity ∨ other.Precedes entity

theorem IsInnermost.unique {document : Document} {p : Position} {a b : Entity}
    (ha : document.IsInnermost p a) (hb : document.IsInnermost p b) : a = b := by
  rcases hb.greatest a ha.encloses with h | hab
  · exact h
  · rcases ha.greatest b hb.encloses with h | hba
    · exact h.symm
    · exact absurd hba hab.asymm

theorem Holds.eq_of_key_eq {document : Document} {a b : Entity} (ha : document.Holds a)
    (hb : document.Holds b) (hkind : a.kind = b.kind) (hkey : a.key = b.key) : a = b := by
  obtain ⟨kind, key, definition⟩ := a
  obtain ⟨kind', key', definition'⟩ := b
  obtain rfl : kind = kind' := hkind
  obtain rfl : key = key' := hkey
  have hdefinition : definition = definition' := Option.some.inj (ha.symm.trans hb)
  rw [hdefinition]

/-! ## The definitions in the order in which they are stored -/

/-- The definitions of one sort. -/
def entitiesOf (document : Document) (kind : EntityKind) : List Entity :=
  (document.definitions kind).entries.map fun entry => ⟨kind, entry.1, entry.2⟩

/-- All definitions. -/
def entities (document : Document) : List Entity :=
  EntityKind.all.flatMap document.entitiesOf

theorem blocks_eq (document : Document) : document.blocks = document.entities.map Entity.block := by
  simp only [blocks, entities, entitiesOf, EntityKind.all, Dict.values, definitions,
    List.flatMap_cons, List.flatMap_nil, List.append_nil, List.map_append, List.map_map,
    List.append_assoc]
  rfl

theorem mem_entitiesOf {document : Document} {kind : EntityKind} {entity : Entity} :
    entity ∈ document.entitiesOf kind ↔ entity.kind = kind ∧ document.Holds entity := by
  obtain ⟨kind', key, definition⟩ := entity
  simp only [entitiesOf, List.mem_map, Entity.mk.injEq, Holds, definition?, Dict.get?_eq_some_iff]
  constructor
  · rintro ⟨entry, hmem, rfl, rfl, rfl⟩
    exact ⟨rfl, hmem⟩
  · rintro ⟨rfl, hmem⟩
    exact ⟨(key, definition), hmem, rfl, rfl, rfl⟩

theorem mem_entities {document : Document} {entity : Entity} :
    entity ∈ document.entities ↔ document.Holds entity := by
  have hall : entity.kind ∈ EntityKind.all := by cases entity.kind <;> decide
  simp only [entities, List.mem_flatMap, mem_entitiesOf]
  constructor
  · rintro ⟨kind, -, -, h⟩
    exact h
  · intro h
    exact ⟨entity.kind, hall, rfl, h⟩

theorem pairwise_entitiesOf (document : Document) (kind : EntityKind) :
    (document.entitiesOf kind).Pairwise Entity.StoredBefore :=
  List.pairwise_map.2 ((document.definitions kind).sorted.imp fun hkey => Or.inr ⟨rfl, hkey⟩)

theorem pairwise_entities (document : Document) :
    document.entities.Pairwise Entity.StoredBefore := by
  refine List.pairwise_flatMap.2 ⟨fun kind _ => document.pairwise_entitiesOf kind, ?_⟩
  have hranks : EntityKind.all.Pairwise fun a b => a.rank < b.rank := by decide
  refine hranks.imp fun {a b} hrank x hx y hy => Or.inl ?_
  rw [(mem_entitiesOf.1 hx).1, (mem_entitiesOf.1 hy).1]
  exact hrank

end Document

/-! ## The order in which blocks are sorted -/

/-- A stable sort keeps the order of elements that it could also have put the other way round. -/
theorem pairwise_mergeSort_of_le {α : Type} {le : α → α → Bool} {r : α → α → Prop}
    (htrans : ∀ a b c, le a b = true → le b c = true → le a c = true)
    (htotal : ∀ a b, (le a b || le b a) = true) {l : List α} (h : l.Pairwise r) :
    (l.mergeSort le).Pairwise fun a b => le b a = true → r a b := by
  induction l with
  | nil => simp
  | cons a l ih =>
    obtain ⟨hfirst, hrest⟩ := List.pairwise_cons.1 h
    -- `a` is put before everything that it may stand before, so only what it may not is on its left
    obtain ⟨l₁, l₂, hcons, hsorted, hleft⟩ := List.mergeSort_cons htrans htotal a l
    have hpairs : (l₁ ++ l₂).Pairwise fun a b => le b a = true → r a b := hsorted ▸ ih hrest
    obtain ⟨hpairs₁, hpairs₂, hacross⟩ := List.pairwise_append.1 hpairs
    rw [hcons]
    refine List.pairwise_append.2 ⟨hpairs₁, List.pairwise_cons.2 ⟨?_, hpairs₂⟩, ?_⟩
    · intro b hb _
      have hmem : b ∈ l.mergeSort le := hsorted ▸ List.mem_append_right l₁ hb
      exact hfirst b (List.mem_mergeSort.1 hmem)
    · intro b hb c hc hle
      rcases List.mem_cons.1 hc with rfl | hc
      · exact absurd hle (by simpa using hleft b hb)
      · exact hacross b hb c hc hle

namespace Block

theorem startsBefore_iff {a b : Block} :
    a.startsBefore b = true ↔ a.range.start < b.range.start
      ∨ (a.range.start = b.range.start ∧ b.range.stop ≤ a.range.stop) := by
  simp [startsBefore]

theorem startsBefore_trans (a b c : Block) (hab : a.startsBefore b = true)
    (hbc : b.startsBefore c = true) : a.startsBefore c = true := by
  rw [startsBefore_iff] at hab hbc ⊢
  rcases hab with hab | ⟨hab, hab'⟩
  · rcases hbc with hbc | ⟨hbc, -⟩
    · exact Or.inl (hab.trans hbc)
    · exact Or.inl (hbc ▸ hab)
  · rcases hbc with hbc | ⟨hbc, hbc'⟩
    · exact Or.inl (hab ▸ hbc)
    · exact Or.inr ⟨hab.trans hbc, hbc'.trans hab'⟩

theorem startsBefore_total (a b : Block) : (a.startsBefore b || b.startsBefore a) = true := by
  rw [Bool.or_eq_true, startsBefore_iff, startsBefore_iff]
  rcases lt_trichotomy a.range.start b.range.start with h | h | h
  · exact Or.inl (Or.inl h)
  · rcases le_total b.range.stop a.range.stop with hstop | hstop
    · exact Or.inl (Or.inr ⟨h, hstop⟩)
    · exact Or.inr (Or.inr ⟨h.symm, hstop⟩)
  · exact Or.inr (Or.inl h)

end Block

/-- Whether the block of one definition may be sorted before that of another. -/
def Entity.startsBefore (a b : Entity) : Bool :=
  a.block.startsBefore b.block

theorem Entity.precedes_of_startsBefore {a b : Entity} (h : a.startsBefore b = true)
    (htie : b.startsBefore a = true → a.StoredBefore b) : a.Precedes b := by
  rcases Block.startsBefore_iff.1 h with hstart | ⟨hstart, hstop⟩
  · exact Or.inl hstart
  · refine Or.inr ⟨hstart, ?_⟩
    rcases hstop.lt_or_eq with hstop | hstop
    · exact Or.inl hstop
    · have hback : b.startsBefore a = true :=
        Block.startsBefore_iff.2 (Or.inr ⟨hstart.symm, hstop.ge⟩)
      exact Or.inr ⟨hstop.symm, htie hback⟩

namespace Document

/-- The definitions in the order of their blocks. -/
def sortedEntities (document : Document) : List Entity :=
  document.entities.mergeSort Entity.startsBefore

theorem mem_sortedEntities {document : Document} {entity : Entity} :
    entity ∈ document.sortedEntities ↔ document.Holds entity := by
  rw [sortedEntities, List.mem_mergeSort, mem_entities]

theorem pairwise_sortedEntities (document : Document) :
    document.sortedEntities.Pairwise Entity.Precedes := by
  have htrans : ∀ a b c : Entity, a.startsBefore b = true → b.startsBefore c = true →
      a.startsBefore c = true := fun a b c => Block.startsBefore_trans _ _ _
  have htotal : ∀ a b : Entity, (a.startsBefore b || b.startsBefore a) = true :=
    fun a b => Block.startsBefore_total _ _
  have hsorted := List.pairwise_mergeSort htrans htotal document.entities
  have hstable := pairwise_mergeSort_of_le htrans htotal document.pairwise_entities
  exact (hsorted.and hstable).imp fun h => Entity.precedes_of_startsBefore h.1 h.2

end Document

/-! ## The innermost block -/

namespace Scopes

theorem blocks_ofDocument (document : Document) :
    (ofDocument document).blocks = document.sortedEntities.map Entity.block := by
  have hmap : ∀ a ∈ document.entities, ∀ b ∈ document.entities,
      a.startsBefore b = a.block.startsBefore b.block := fun _ _ _ _ => rfl
  rw [ofDocument, Document.blocks_eq, Document.sortedEntities]
  exact (List.map_mergeSort hmap).symm

theorem innermost?_ofDocument (document : Document) (p : Position) :
    (ofDocument document).innermost? p
      = (document.sortedEntities.reverse.find? (·.definition.range.contains p)).map
          Entity.block := by
  rw [innermost?, blocks_ofDocument, ← List.map_reverse, List.find?_map]
  rfl

/-- What a place sees depends only on which definitions are around it. -/
theorem visibleAt_eq_of_contains_eq {document : Document} {p q : Position}
    (h : ∀ entity, document.Holds entity →
      entity.definition.range.contains p = entity.definition.range.contains q) :
    (ofDocument document).visibleAt p = (ofDocument document).visibleAt q := by
  have hfind : document.sortedEntities.reverse.find? (·.definition.range.contains p)
      = document.sortedEntities.reverse.find? (·.definition.range.contains q) := by
    apply List.find?_congr
    intro entity hmem
    exact h entity (Document.mem_sortedEntities.1 (List.mem_reverse.1 hmem))
  rw [visibleAt, visibleAt, innermost?_ofDocument, innermost?_ofDocument, hfind]

theorem encloses_iff {document : Document} {p : Position} {entity : Entity} :
    document.Encloses p entity
      ↔ entity ∈ document.sortedEntities.reverse ∧ entity.definition.range.contains p = true := by
  rw [List.mem_reverse, Document.mem_sortedEntities, Range.contains_iff]
  constructor
  · rintro ⟨hholds, hstart, hstop⟩
    exact ⟨hholds, hstart, hstop⟩
  · rintro ⟨hholds, hstart, hstop⟩
    exact ⟨hholds, hstart, hstop⟩

/-- Either nothing is around a place, or the block found there is that of the innermost definition. -/
theorem innermost?_cases (document : Document) (p : Position) :
    ((ofDocument document).innermost? p = none ∧ ∀ entity, ¬ document.Encloses p entity)
      ∨ ∃ entity, document.IsInnermost p entity
        ∧ (ofDocument document).innermost? p = some entity.block := by
  rw [innermost?_ofDocument]
  cases hfind : document.sortedEntities.reverse.find? (·.definition.range.contains p) with
  | none =>
    refine Or.inl ⟨rfl, fun entity hentity => ?_⟩
    obtain ⟨hmem, hcontains⟩ := encloses_iff.1 hentity
    exact List.find?_eq_none.1 hfind entity hmem hcontains
  | some entity =>
    obtain ⟨hcontains, later, earlier, hsplit, hlater⟩ := List.find?_eq_some_iff_append.1 hfind
    have hmem : entity ∈ document.sortedEntities.reverse := by
      rw [hsplit]
      exact List.mem_append_right later List.mem_cons_self
    -- the list is searched backwards: what follows the entity there precedes it
    have hpairs : (later ++ entity :: earlier).Pairwise fun a b => b.Precedes a :=
      hsplit ▸ List.pairwise_reverse.2 document.pairwise_sortedEntities
    have hbehind := (List.pairwise_cons.1 (List.pairwise_append.1 hpairs).2.1).1
    refine Or.inr ⟨entity, ⟨encloses_iff.2 ⟨hmem, hcontains⟩, fun other hother => ?_⟩, rfl⟩
    obtain ⟨hmem', hcontains'⟩ := encloses_iff.1 hother
    rw [hsplit, List.mem_append, List.mem_cons] at hmem'
    rcases hmem' with hmem' | heq | hmem'
    · exact absurd hcontains' (by simpa using hlater other hmem')
    · exact Or.inl heq
    · exact Or.inr (hbehind other hmem')

theorem visibleAt_of_not_encloses {document : Document} {p : Position}
    (h : ∀ entity, ¬ document.Encloses p entity) :
    (ofDocument document).visibleAt p = document.pipelineParameters := by
  rcases innermost?_cases document p with ⟨hnone, -⟩ | ⟨entity, hentity, -⟩
  · rw [visibleAt, hnone]
    rfl
  · exact absurd hentity.encloses (h entity)

theorem get?_visibleAt_of_isInnermost {document : Document} {p : Position} {entity : Entity}
    (h : document.IsInnermost p entity) (name : String) :
    ((ofDocument document).visibleAt p).get? name
      = (entity.definition.parameters.get? name).or (document.pipelineParameters.get? name) := by
  rcases innermost?_cases document p with ⟨-, hnone⟩ | ⟨found, hfound, hsome⟩
  · exact absurd h.encloses (hnone entity)
  · obtain rfl := hfound.unique h
    rw [visibleAt, hsome]
    exact Dict.get?_overlay _ _ _

end Scopes

theorem Document.exists_isInnermost {document : Document} {p : Position} {entity : Entity}
    (h : document.Encloses p entity) : ∃ inner, document.IsInnermost p inner := by
  rcases Scopes.innermost?_cases document p with ⟨-, hnone⟩ | ⟨inner, hinner, -⟩
  · exact absurd h (hnone entity)
  · exact ⟨inner, hinner⟩

/-! ## What the innermost definition hides -/

namespace Document

/-- Whether two documents define things under the same names at the same places. Their parameters
    may differ. -/
def SamePlaces (a b : Document) : Prop :=
  ∀ kind key, (a.definition? kind key).map Definition.range
    = (b.definition? kind key).map Definition.range

theorem SamePlaces.encloses {document changed : Document} (h : document.SamePlaces changed)
    {p : Position} {kind : EntityKind} {key : String} {definition : Definition}
    (hencloses : changed.Encloses p ⟨kind, key, definition⟩) :
    ∃ original : Definition, original.range = definition.range
      ∧ document.Encloses p ⟨kind, key, original⟩ := by
  obtain ⟨hholds, hstart, hstop⟩ := hencloses
  have hrange := h kind key
  rw [show changed.definition? kind key = some definition from hholds, Option.map_some,
    Option.map_eq_some_iff] at hrange
  obtain ⟨original, horiginal, hrange⟩ := hrange
  exact ⟨original, hrange, horiginal, hrange ▸ hstart, hrange ▸ hstop⟩

/-- Which definition is innermost depends on names and places only. -/
theorem IsInnermost.of_samePlaces {document changed : Document} {p : Position} {inner : Entity}
    (h : document.IsInnermost p inner) (hplaces : document.SamePlaces changed)
    (hinner : changed.Holds inner) : changed.IsInnermost p inner := by
  refine ⟨⟨hinner, h.encloses.start_le, h.encloses.lt_stop⟩, fun other hother => ?_⟩
  obtain ⟨kind, key, definition⟩ := other
  obtain ⟨original, hrange, horiginal⟩ := hplaces.encloses hother
  rcases h.greatest _ horiginal with heq | hprecedes
  · subst heq
    exact Or.inl (hother.holds.eq_of_key_eq hinner rfl rfl)
  · right
    unfold Entity.Precedes at hprecedes ⊢
    rw [hrange] at hprecedes
    exact hprecedes

/-- Among ranges that do not cross, the innermost one is inside every other one around the place. -/
theorem IsInnermost.bounds {document : Document} {p : Position} {inner entity : Entity}
    (h : document.IsInnermost p inner) (hentity : document.Encloses p entity)
    (hnested : inner.definition.range.Within entity.definition.range
      ∨ entity.definition.range.Within inner.definition.range
      ∨ inner.definition.range.Apart entity.definition.range) :
    entity.definition.range.start ≤ inner.definition.range.start
      ∧ inner.definition.range.stop ≤ entity.definition.range.stop := by
  have hinner : inner.definition.range.contains p = true :=
    Range.contains_iff.2 ⟨h.encloses.start_le, h.encloses.lt_stop⟩
  have hentity' : entity.definition.range.contains p = true :=
    Range.contains_iff.2 ⟨hentity.start_le, hentity.lt_stop⟩
  rcases hnested with hwithin | hwithin | hapart
  · exact hwithin.bounds hinner
  · -- the other way round only equal ranges are left, since the innermost one is the greatest
    obtain ⟨hstart, hstop⟩ := hwithin.bounds hentity'
    rcases h.greatest entity hentity with rfl | hlt | ⟨hstart', hlt | ⟨hstop', -⟩⟩
    · exact ⟨le_rfl, le_rfl⟩
    · exact absurd hstart hlt.not_ge
    · exact absurd hstop hlt.not_ge
    · exact ⟨hstart'.le, hstop'.ge⟩
  · rw [hapart p hinner] at hentity'
    exact absurd hentity' (by decide)

/-- Where no definition is around a place, it sees the parameters of the pipeline. Elsewhere there
    is one innermost definition: the place sees its parameters and, under other names, those of the
    pipeline, whatever the parameters of the other definitions are. If the ranges of definitions do
    not cross, that definition lies inside every other one around the place. -/
theorem visibleAt_eq_innermost (document : Document) (p : Position) :
    ((∀ entity, ¬ document.Encloses p entity) → ∀ name,
      ((Scopes.ofDocument document).visibleAt p).get? name
        = document.pipelineParameters.get? name)
    ∧ ((∃ entity, document.Encloses p entity) → ∃! inner, document.IsInnermost p inner
      ∧ (∀ name, ((Scopes.ofDocument document).visibleAt p).get? name
          = (inner.definition.parameters.get? name).or (document.pipelineParameters.get? name))
      ∧ (∀ changed : Document, changed.pipelineParameters = document.pipelineParameters →
          document.SamePlaces changed → changed.Holds inner → ∀ name,
            ((Scopes.ofDocument changed).visibleAt p).get? name
              = ((Scopes.ofDocument document).visibleAt p).get? name)
      ∧ ((∀ a b, document.Holds a → document.Holds b →
            a.definition.range.Within b.definition.range
              ∨ b.definition.range.Within a.definition.range
              ∨ a.definition.range.Apart b.definition.range) →
          ∀ entity, document.Encloses p entity →
            entity.definition.range.start ≤ inner.definition.range.start
              ∧ inner.definition.range.stop ≤ entity.definition.range.stop)) := by
  constructor
  · intro hnone name
    rw [Scopes.visibleAt_of_not_encloses hnone]
  · rintro ⟨entity, hentity⟩
    obtain ⟨inner, hinner⟩ := exists_isInnermost hentity
    refine ⟨inner, ⟨hinner, Scopes.get?_visibleAt_of_isInnermost hinner, ?_, ?_⟩, ?_⟩
    · intro changed hpipeline hplaces hholds name
      rw [Scopes.get?_visibleAt_of_isInnermost (hinner.of_samePlaces hplaces hholds),
        Scopes.get?_visibleAt_of_isInnermost hinner, hpipeline]
    · intro hnested other hother
      exact hinner.bounds hother (hnested inner other hinner.encloses.holds hother.holds)
    · rintro other ⟨hother, -⟩
      exact hother.unique hinner

end Document

end PipelineLint
