import PipelineLint.Proofs.LoneReferences

set_option autoImplicit false

/-! # Forwarding a parameter

A value that is nothing but a reference passes on what the parameter it names was given, and is
accepted for a parameter of the same kind. That is safe where the kind settles which values are
accepted, and it does so for every kind but enumerations: any value is then accepted for both
parameters or for neither (`Check.value_eq_nil_iff_of_kind_eq`). Between two enumerations it is safe
exactly if the second one allows what the first one allows, apart from texts that are references
themselves and never looked up among the allowed values (`value_accepted_through_reference`). -/

namespace PipelineLint

theorem ParamType.exists_eq_enum {type : ParamType} (h : type.kind = .enum) :
    ∃ allowed, type = .enum allowed := by
  cases type with
  | enum allowed => exact ⟨allowed, rfl⟩
  | _ => exact absurd h (by decide)

namespace Check

section

variable {site : Site} {value : Value} {given declared : Parameter} {entity other : String}

theorem value_eq_nil_iff_fits (h : ∀ reference, ¬ value.IsReference reference) :
    Check.value site value declared entity = []
      ↔ Fits site.document site.external value declared.type := by
  have hnone : (value.text?.bind fun text => loneReference? text.toList) = none := by
    rw [Option.eq_none_iff_forall_ne_some]
    intro reference hreference
    exact h reference (Value.isReference_iff.1 hreference)
  rw [Check.value, hnone]
  exact literal_eq_nil_iff

theorem value_eq_nil_iff_of_enum (h : ∀ reference, ¬ value.IsReference reference)
    {allowed : List String} (htype : declared.type = .enum allowed) :
    Check.value site value declared entity = []
      ↔ ∃ text, value.payload = .string text ∧ text ∈ allowed := by
  rw [value_eq_nil_iff_fits h, htype]
  constructor
  · rintro ⟨⟩
    next text hvalue hallowed => exact ⟨text, hvalue, hallowed⟩
  · rintro ⟨text, hvalue, hallowed⟩
    exact .enum hvalue hallowed

theorem forwarded_eq_nil_iff_of_resolve {reference : Reference}
    (h : site.scopes.resolve? site.visible reference = some given) :
    forwarded site reference value declared entity = [] ↔ given.kind = declared.kind := by
  simp only [forwarded, h, ite_singleton_eq_nil_iff]

/-- A reference is accepted by its kind alone. -/
theorem value_eq_nil_iff_of_isReference (hkind : given.kind = declared.kind)
    {reference : Reference} (h : value.IsReference reference) :
    Check.value site value declared entity = [] ↔ Check.value site value given other = [] := by
  rw [value_of_isReference h, value_of_isReference h]
  cases hresolve : site.scopes.resolve? site.visible reference with
  | none => simp only [forwarded, hresolve]
  | some resolved =>
    rw [forwarded_eq_nil_iff_of_resolve hresolve, forwarded_eq_nil_iff_of_resolve hresolve, hkind]

theorem value_eq_nil_iff_of_kind_eq (hkind : given.kind = declared.kind)
    (henum : given.kind ≠ .enum) :
    Check.value site value declared entity = [] ↔ Check.value site value given other = [] := by
  by_cases hreference : ∃ reference, value.IsReference reference
  · obtain ⟨reference, hreference⟩ := hreference
    exact value_eq_nil_iff_of_isReference hkind hreference
  · rw [not_exists] at hreference
    have htype : given.type = declared.type := ParamType.eq_of_kind_eq hkind henum
    rw [value_eq_nil_iff_fits hreference, value_eq_nil_iff_fits hreference, htype]

/-- A value that only one of two parameters of one kind accepts is a text that only one of two
    enumerations allows. -/
theorem exists_text_of_value_ne_nil (hkind : given.kind = declared.kind)
    (hgiven : Check.value site value given other = [])
    (hdeclared : Check.value site value declared entity ≠ []) :
    ∃ allowed allowed' text, given.type = .enum allowed ∧ declared.type = .enum allowed'
      ∧ value.payload = .string text ∧ text ∈ allowed ∧ text ∉ allowed' := by
  have henum : given.kind = .enum := by
    by_contra henum
    exact hdeclared ((value_eq_nil_iff_of_kind_eq hkind henum).2 hgiven)
  have hliteral : ∀ reference, ¬ value.IsReference reference := by
    intro reference hreference
    exact hdeclared ((value_eq_nil_iff_of_isReference hkind hreference).2 hgiven)
  obtain ⟨allowed, htype⟩ := ParamType.exists_eq_enum henum
  obtain ⟨allowed', htype'⟩ := ParamType.exists_eq_enum (hkind.symm.trans henum)
  obtain ⟨text, hvalue, hallowed⟩ := (value_eq_nil_iff_of_enum hliteral htype).1 hgiven
  refine ⟨allowed, allowed', text, htype, htype', hvalue, hallowed, fun hallowed' => ?_⟩
  exact hdeclared ((value_eq_nil_iff_of_enum hliteral htype').2 ⟨text, hvalue, hallowed'⟩)

end

end Check

/-- **What a forwarded parameter may hold.** Let two parameters be of one kind. If that is not the
    enumerations, every value is accepted for both or for neither. If it is, the second one accepts
    every literal value that the first one does exactly if it allows all the texts that the first
    one allows, those that are a lone reference apart. So where a reference to the first parameter
    is accepted for the second one, a value of the first that the second would not accept is a text
    that the one enumeration allows and the other does not. -/
theorem value_accepted_through_reference (site : Site) (given declared : Parameter)
    (entity other : String) :
    (given.kind = declared.kind →
      (given.kind ≠ .enum → ∀ value,
        Check.value site value declared entity = [] ↔ Check.value site value given other = [])
      ∧ ∀ allowed allowed', given.type = .enum allowed → declared.type = .enum allowed' →
        ((∀ value, (∀ reference, ¬ value.IsReference reference) →
            Check.value site value given other = [] → Check.value site value declared entity = [])
          ↔ ∀ text ∈ allowed, loneReference? text.toList = none → text ∈ allowed'))
    ∧ ∀ forwarding reference, forwarding.IsReference reference →
      site.scopes.resolve? site.visible reference = some given →
      Check.value site forwarding declared entity = [] →
      ∀ (outer : Site) value, Check.value outer value given other = [] →
        Check.value outer value declared entity ≠ [] →
        ∃ allowed allowed' text, given.type = .enum allowed ∧ declared.type = .enum allowed'
          ∧ value.payload = .string text ∧ text ∈ allowed ∧ text ∉ allowed' := by
  refine ⟨fun hkind => ⟨fun henum value => ?_, fun allowed allowed' htype htype' => ⟨?_, ?_⟩⟩, ?_⟩
  · exact Check.value_eq_nil_iff_of_kind_eq hkind henum
  · intro hsafe text htext hlone
    -- the text itself, as a value, is accepted by the first enumeration
    let value : Value := { payload := .string text, range := default }
    have hliteral : ∀ reference, ¬ value.IsReference reference := by
      rintro reference ⟨content, hcontent, hreference⟩
      obtain rfl := Payload.string.inj hcontent
      exact absurd (hlone.symm.trans hreference) (by simp)
    have hgiven : Check.value site value given other = [] :=
      (Check.value_eq_nil_iff_of_enum hliteral htype).2 ⟨text, rfl, htext⟩
    obtain ⟨content, hcontent, hallowed⟩ :=
      (Check.value_eq_nil_iff_of_enum hliteral htype').1 (hsafe value hliteral hgiven)
    obtain rfl := Payload.string.inj hcontent
    exact hallowed
  · intro hallowed value hliteral hgiven
    by_contra hdeclared
    obtain ⟨_, _, text, hgivenType, hdeclaredType, hvalue, hmem, hnot⟩ :=
      Check.exists_text_of_value_ne_nil hkind hgiven hdeclared
    obtain rfl := ParamType.enum.inj (htype.symm.trans hgivenType)
    obtain rfl := ParamType.enum.inj (htype'.symm.trans hdeclaredType)
    refine hnot (hallowed text hmem (Option.eq_none_iff_forall_ne_some.2 fun reference hlone => ?_))
    exact hliteral reference ⟨text, hvalue, hlone⟩
  · intro forwarding reference hreference hresolve haccepted outer value hgiven hdeclared
    rw [Check.value_of_isReference hreference] at haccepted
    have hkind := (Check.forwarded_eq_nil_iff_of_resolve hresolve).1 haccepted
    exact Check.exists_text_of_value_ne_nil hkind hgiven hdeclared

/-- Between enumerations the second of which lacks only a reference, nothing is let through; the
    text `huge` is let through to one that lacks it as well. -/
theorem value_accepted_through_reference_sizes :
    let size (allowed : List String) : Parameter := { name := "size", type := .enum allowed }
    let given := size ["small", "huge"]
    let job : Definition :=
      { name := "build", range := ⟨⟨1, 0⟩, ⟨9, 0⟩⟩, parameters := .ofList [("size", given)] }
    let document : Document := { jobs := .ofList [("build", job)] }
    let site := Site.atPosition document [] (.ofDocument document) ⟨4, 0⟩
    let value (text : String) : Value := { payload := .string text, range := ⟨⟨4, 4⟩, ⟨4, 30⟩⟩ }
    (∀ literal : Value, (∀ reference, ¬ literal.IsReference reference) →
        Check.value site literal (size ["small", "<< pipeline.parameters.size >>"]) "build" = [] →
        Check.value site literal (size ["large", "small"]) "resize" = [])
      ∧ Check.value site (value "<< parameters.size >>") (size ["large", "small"]) "resize" = []
      ∧ ∃ allowed allowed' text, given.type = .enum allowed
        ∧ (size ["large", "small"]).type = .enum allowed'
        ∧ (value "huge").payload = .string text ∧ text ∈ allowed ∧ text ∉ allowed' := by
  intro size given job document site value
  let reference : Reference :=
    { name := "size", path := "parameters.size", qualifier := .localScope
      range := ⟨⟨0, 0⟩, ⟨0, 21⟩⟩ }
  have hlone : loneReference? "<< parameters.size >>".toList = some reference := by decide +kernel
  have hforwarded :
      Check.value site (value "<< parameters.size >>") (size ["large", "small"]) "resize" = [] := by
    decide +kernel
  obtain ⟨hsame, -⟩ := value_accepted_through_reference site
    (size ["small", "<< pipeline.parameters.size >>"]) (size ["large", "small"]) "resize" "build"
  obtain ⟨-, hthrough⟩ := value_accepted_through_reference site given (size ["large", "small"])
    "resize" "build"
  refine ⟨((hsame rfl).2 _ _ rfl rfl).2 (by decide +kernel), hforwarded, ?_⟩
  exact hthrough _ reference ⟨_, rfl, hlone⟩ (by decide +kernel) hforwarded site (value "huge")
    (by decide +kernel) (by decide +kernel)

end PipelineLint
