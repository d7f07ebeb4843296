import ProviderSchema.Proofs.Json.Numbers
import ProviderSchema.Proofs.OpenApi.StandingSchemas
import ProviderSchema.Proofs.Yaml.Numbers

/-!
# The numbers of decoded schemas

`Schema.Decoded` says that a schema stands in what was read from a text, be it a schema
alone or a description, in one of the two formats.  Its keywords were read from the
fields of a node of that text (`Decoded.exists_fields`), so their numbers are numbers
that a text may have: integers of 64 bits, with or without a sign, and floating-point
numbers of the format.  In free values the latter are finite; a bound need not be
(`Decoded.numbersInRange`).
-/

namespace ProviderSchema.OpenApi

open Decimal (Binary64 minInt64)
open Yaml (yamlNumbers)

/-- A schema is, or stands in, what was read from a text. -/
inductive Schema.Decoded (s : Schema) : Prop where
  | schema {format : Format} {text : String} {t : Schema}
      (h : Schema.read format text = .ok t) (below : Schema.Contains s t)
  | inline {format : Format} {text : String} {k : Keywords} {c : Children Schema}
      (h : Schema.readInline format text = .ok (k, c)) (below : Schema.Contains s (.inline k c))
  | description {format : Format} {text : String} {d : Description}
      (h : Description.read format text = .ok d) (contained : d.Contains s)

/-! ## Content -/

/-- The numbers of a text, whatever its format. -/
theorem allNumbers_contentOf {format : Format} {shape : Shape} {text : String} {c : Content}
    (h : contentOf format shape text = .ok c) : c.AllNumbers yamlNumbers := by
  cases format with
  | yaml =>
    rw [contentOf] at h
    split at h
    · cases h
      exact Yaml.allNumbers_contentOf? (by assumption)
    · cases h
  | json =>
    rw [contentOf] at h
    split at h
    · cases h
      refine (Json.allNumbers_contentOf (by assumption)).mono (fun n hn => ⟨hn.1, ?_⟩)
        fun x hx => hx.2
      exact Int.lt_of_le_of_lt hn.2 (by decide)
    · cases h

/-- The keywords of a decoded schema are read from the fields of a node with such
numbers. -/
theorem Schema.Decoded.exists_fields {k : Keywords} {c : Children Schema}
    (h : Schema.Decoded (.inline k c)) :
    ∃ (content : Content) (f : Fields), content.AllNumbers yamlNumbers ∧
      content.fields? fieldList = some f ∧ keywords? f = some k := by
  have hpart : ∀ {content part : Content}, content.AllNumbers yamlNumbers → part.Within content →
      ofContent? part = some (.inline k c) → ∃ (content : Content) (f : Fields),
        content.AllNumbers yamlNumbers ∧ content.fields? fieldList = some f ∧
          keywords? f = some k := by
    intro content part hcontent hwithin hread
    obtain ⟨⟨f, hf, hk⟩, -⟩ := fields_of_ofContent?_eq_inline hread
    exact ⟨part, f, hcontent.of_within hwithin, hf, hk⟩
  cases h with
  | schema h below =>
    obtain ⟨content, hcontent, hread⟩ := exists_content_of_readAs h
    obtain ⟨part, hwithin, hread⟩ := exists_part_of_contains hread below
    exact hpart (allNumbers_contentOf hcontent) hwithin hread
  | inline h below =>
    obtain ⟨content, hcontent, hread⟩ := exists_content_of_readAs h
    have hcontent := allNumbers_contentOf hcontent
    obtain ⟨⟨f, hf, hk⟩, hchildren⟩ := fields_of_inlineOfContent? hread
    cases below with
    | here => exact ⟨content, f, hcontent, hf, hk⟩
    | child held below =>
      obtain ⟨child, hchild, hread⟩ := hchildren.exists_part held
      obtain ⟨part, hwithin, hread⟩ := exists_part_of_contains hread below
      exact hpart hcontent (.inr (hwithin.below hchild)) hread
  | description h contained =>
    obtain ⟨⟨content, hcontent, hread⟩, -⟩ := Description.exists_content_of_read h
    obtain ⟨part, hwithin, hread⟩ := Description.exists_part_of_contains hread contained
    exact hpart (allNumbers_contentOf hcontent) hwithin hread

/-! ## Keywords -/

/-- The numbers that the keywords of a decoded schema may have. -/
structure Keywords.NumbersInRange (k : Keywords) : Prop where
  integer : ∀ n, .integer n ∈ k.enum → minInt64 ≤ n ∧ n < Int.pow 2 64
  float : ∀ x, .float x ∈ k.enum → x.isFinite = true ∧ x.InFormat
  minimum : ∀ x, k.minimum = some x → x.InFormat
  maximum : ∀ x, k.maximum = some x → x.InFormat

theorem fields_of_keywords? {f : Fields} {k : Keywords} (h : Schema.keywords? f = some k) :
    f.defaulted 16 [] freeValues? = some k.enum ∧
      f.optional 17 Content.float? = some k.minimum ∧
        f.optional 18 Content.float? = some k.maximum := by
  simp only [Schema.keywords?, bind_eq_some_iff, Option.pure_def, Option.some_inj] at h
  grind

theorem inFormat_of_float? {c : Content} (hc : c.AllNumbers yamlNumbers) {x : Binary64}
    (hx : c.float? = some x) : x.InFormat := by
  cases c with
  | integer n =>
    cases hx
    exact Binary64.inFormat_ofInt n
  | float y =>
    cases hx
    exact hc.own
  | _ => cases hx

/-- A free value that is a number is one of the text, and finite. -/
theorem number_of_toJson? {c : Content} (hc : c.AllNumbers yamlNumbers) {value : Json}
    (h : c.toJson? = some value) :
    (∀ n, value = .integer n → minInt64 ≤ n ∧ n < Int.pow 2 64) ∧
      ∀ x, value = .float x → x.isFinite = true ∧ x.InFormat := by
  cases c with
  | integer n =>
    cases h
    exact ⟨by rintro _ ⟨⟩; exact hc.own, by simp⟩
  | float y =>
    rw [Content.toJson?, Option.some_inj] at h
    subst h
    by_cases hy : y.isFinite = true
    · rw [if_pos hy]
      exact ⟨by simp, by rintro _ ⟨⟩; exact ⟨hy, hc.own⟩⟩
    · rw [if_neg hy]
      exact ⟨by simp, by simp⟩
  | array items =>
    rw [Content.toJson?, Option.map_eq_some_iff] at h
    obtain ⟨values, -, rfl⟩ := h
    exact ⟨by simp, by simp⟩
  | object entries =>
    rw [Content.toJson?, Option.map_eq_some_iff] at h
    obtain ⟨members, -, rfl⟩ := h
    exact ⟨by simp, by simp⟩
  | _ =>
    cases h
    exact ⟨by simp, by simp⟩

theorem Schema.Decoded.numbersInRange {k : Keywords} {c : Children Schema}
    (h : Schema.Decoded (.inline k c)) : k.NumbersInRange := by
  obtain ⟨content, f, hcontent, hf, hk⟩ := h.exists_fields
  obtain ⟨henum, hmin, hmax⟩ := fields_of_keywords? hk
  have hpart : ∀ {i part}, f.get? i = some part → part.AllNumbers yamlNumbers := fun hpart =>
    hcontent.of_holds (Content.holds_of_fields? hf hpart)
  have hbound : ∀ {i : Nat} {bound : Option Binary64}, f.optional i Content.float? = some bound →
      ∀ x, bound = some x → x.InFormat := by
    rintro i _ hbound x rfl
    obtain ⟨part, hget, hread⟩ := Fields.exists_of_optional hbound
    exact inFormat_of_float? (hpart hget) hread
  have hvalues : ∀ value ∈ k.enum, (∀ n, value = .integer n → minInt64 ≤ n ∧ n < Int.pow 2 64) ∧
      ∀ x, value = .float x → x.isFinite = true ∧ x.InFormat := by
    unfold Fields.defaulted at henum
    split at henum
    · rw [← Option.some_inj.mp henum]
      simp
    · rename_i part hget
      cases part with
      | array items =>
        refine Content.forall_of_toJsonItems? (fun item hitem value hvalue => ?_) henum
        exact number_of_toJson? ((hpart hget).of_holds (.item hitem)) hvalue
      | _ => cases henum
  exact ⟨fun n hn => (hvalues _ hn).1 n rfl, fun x hx => (hvalues _ hx).2 x rfl,
    hbound hmin, hbound hmax⟩

end ProviderSchema.OpenApi
