import ProviderSchema.Proofs.Node.ValidatorLiterals

/-!
# Enumerations of texts

The validator for an enumeration of texts is written as a call whose arguments are the
texts, each between quotes (`definition_oneOfTexts`).  The texts may hold quotes,
backslashes, commas, parentheses and control characters, and still the definition tells
them apart: it is read as a call, and its arguments are read as JSON
(`enumeratedTexts?`), which gives the texts back (`enumeratedTexts?_definition`).  So
enumerations that differ have definitions that differ (`definition_oneOfTexts_injective`).

Of the validators of a schema, those that enumerate texts are the one for the texts in its
`enum`, if there are any (`mem_validators_string_iff`).
-/

namespace ProviderSchema

open Json.Quoted (quote)
open OpenApi (Keywords)
open Text (joinWith)

/-- The text that a whole JSON text stands for, if it stands for one. -/
def Json.readText? (text : String) : Option String :=
  match SourceText.ofText text with
  | ⟨.text value, none⟩ => some value
  | _ => none

theorem Json.readText?_quote (value : String) : Json.readText? (quote value) = some value := by
  rw [Json.readText?, SourceText.ofText_quote]

namespace Validator

/-- The validator for an enumeration of texts. -/
def oneOfTexts (values : List String) : Validator := ⟨.string, .oneOf (values.map .text)⟩

/-- The texts that a definition enumerates: it is a call of `OneOf` for texts, and each of
its arguments is read as JSON. -/
def enumeratedTexts? (definition : String) : Option (List String) :=
  match Snippet.read? definition with
  | some ⟨package, function, arguments⟩ =>
    if package = "stringvalidator" ∧ function = "OneOf" then arguments.mapM Json.readText?
    else none
  | none => none

variable (values : List String)

theorem call_oneOfTexts :
    call .string (.oneOf (values.map .text)) = ("OneOf", values.map quote) := by
  rw [call, List.map_map]
  rfl

theorem definition_oneOfTexts :
    (oneOfTexts values).definition =
      "stringvalidator.OneOf(" ++ joinWith ", " (values.map quote) ++ ")" := by
  rw [oneOfTexts, definition, call_oneOfTexts]
  rfl

/-- The quoted texts are taken apart at the commas between them, and at no others. -/
theorem read?_definition_oneOfTexts :
    Snippet.read? (oneOfTexts values).definition =
      some ⟨"stringvalidator", "OneOf", values.map quote⟩ := by
  have hsealed : ∀ t ∈ (call .string (.oneOf (values.map .text))).2,
      Snippet.Sealed t.toList := by
    rw [call_oneOfTexts, List.forall_mem_map]
    exact fun value _ => (isArgument_text value).taken
  have hread := Snippet.read?_definition (v := oneOfTexts values) hsealed
  rw [oneOfTexts, call_oneOfTexts] at hread
  exact hread

theorem mapM_readText?_map_quote : (values.map quote).mapM Json.readText? = some values := by
  induction values with
  | nil => rfl
  | cons value rest ih =>
    rw [List.map_cons, List.mapM_cons, Json.readText?_quote, ih]
    rfl

theorem enumeratedTexts?_definition :
    enumeratedTexts? (oneOfTexts values).definition = some values := by
  rw [enumeratedTexts?, read?_definition_oneOfTexts]
  exact mapM_readText?_map_quote values

theorem definition_oneOfTexts_injective :
    Function.Injective fun values => (oneOfTexts values).definition := by
  intro values others h
  have hread := congrArg enumeratedTexts? h
  dsimp only at hread
  rwa [enumeratedTexts?_definition, enumeratedTexts?_definition, Option.some_inj] at hread

end Validator

/-! ## Validators of a schema -/

theorem Json.filter_isText_eq (values : List Json) :
    values.filter Json.isText = (values.filterMap Json.text?).map .text := by
  induction values with
  | nil => rfl
  | cons value rest ih =>
    cases value with
    | text s =>
      have htext : (Json.text s).text? = some s := rfl
      rw [List.filter_cons_of_pos rfl, List.filterMap_cons_some htext, List.map_cons, ih]
    | _ => exact ih

/-- The only validator of texts that enumerates is the one for all texts in the `enum`. -/
theorem mem_validators_string_iff {k : Keywords} {v : Validator} :
    (v ∈ k.validators .string ∧ ∃ values, v.rule = .oneOf values) ↔
      k.enum.filterMap Json.text? ≠ [] ∧
        v = Validator.oneOfTexts (k.enum.filterMap Json.text?) := by
  have henumeration : k.enumeration Json.isText =
      if k.enum.filterMap Json.text? = [] then []
      else [.oneOf ((k.enum.filterMap Json.text?).map .text)] := by
    simp [Keywords.enumeration, Json.filter_isText_eq]
  constructor
  · rintro ⟨hv, values, hvalues⟩
    obtain ⟨rule, hrule, rfl⟩ := List.mem_map.mp hv
    obtain rfl : rule = .oneOf values := hvalues
    rcases List.mem_append.mp hrule with h | h
    · rw [henumeration] at h
      split at h
      · cases h
      · rename_i hne
        rw [List.mem_singleton.mp h]
        exact ⟨hne, rfl⟩
    · -- Bounds of the length do not enumerate.
      obtain ⟨_, -, h⟩ | ⟨_, -, h⟩ | ⟨_, _, -, -, h⟩ := ValidatorRule.mem_bounded h <;> cases h
  · rintro ⟨hne, rfl⟩
    refine ⟨List.mem_map.mpr ⟨_, List.mem_append_left _ ?_, rfl⟩, _, rfl⟩
    rw [henumeration, if_neg hne]
    exact List.mem_singleton_self _

/-- An enumeration of texts is read back from its definition.  The definition is a call of
`stringvalidator.OneOf`; its arguments, taken apart at the commas outside of quoted texts,
are as many as the texts, and JSON for them in their order.  No other list of texts has
this definition, and a schema has such a validator for the texts in its `enum`. -/
theorem oneOfTexts_readBack (values : List String) :
    (Validator.oneOfTexts values).definition =
        "stringvalidator.OneOf(" ++ joinWith ", " (values.map quote) ++ ")" ∧
      (∃ snippet, Snippet.read? (Validator.oneOfTexts values).definition = some snippet ∧
        snippet.package = "stringvalidator" ∧ snippet.function = "OneOf" ∧
        snippet.arguments = values.map quote ∧
        snippet.arguments.mapM Json.readText? = some values) ∧
      (∀ others, (Validator.oneOfTexts others).definition =
        (Validator.oneOfTexts values).definition → others = values) ∧
      ∀ (k : Keywords) (v : Validator),
        (v ∈ k.validators .string ∧ ∃ accepted, v.rule = .oneOf accepted) ↔
          k.enum.filterMap Json.text? ≠ [] ∧
            v = Validator.oneOfTexts (k.enum.filterMap Json.text?) :=
  ⟨Validator.definition_oneOfTexts values,
    ⟨_, Validator.read?_definition_oneOfTexts values, rfl, rfl, rfl,
      Validator.mapM_readText?_map_quote values⟩,
    fun _ h => Validator.definition_oneOfTexts_injective h,
    fun _ _ => mem_validators_string_iff⟩

/-- A comma and a quote in one text are not two texts. -/
theorem oneOfTexts_readBack_quoteAndComma :
    (Validator.oneOfTexts ["a\", \"b", "\\)"]).definition =
        "stringvalidator.OneOf(\"a\\\", \\\"b\", \"\\\\)\")" ∧
      ∀ others, (Validator.oneOfTexts others).definition =
        "stringvalidator.OneOf(\"a\\\", \\\"b\", \"\\\\)\")" → others = ["a\", \"b", "\\)"] := by
  obtain ⟨hdefinition, -, hinjective, -⟩ := oneOfTexts_readBack ["a\", \"b", "\\)"]
  have htext : (Validator.oneOfTexts ["a\", \"b", "\\)"]).definition =
      "stringvalidator.OneOf(\"a\\\", \\\"b\", \"\\\\)\")" := hdefinition.trans (by decide)
  exact ⟨htext, fun others h => hinjective others (h.trans htext.symm)⟩

end ProviderSchema
