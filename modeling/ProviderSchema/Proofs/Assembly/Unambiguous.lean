import ProviderSchema.Assembly.Specification
import ProviderSchema.Proofs.Attribute.Unambiguous
import ProviderSchema.Proofs.Decimal.Value

/-!
# What the JSON value of a specification tells

Specifications are alike if they are the same but for validators that are alike
and for defaults that are the same numbers.  Two specifications with finite
defaults have the same JSON value precisely if they are alike
(`Specification.sameValue_toJson_iff_alike`).  All else is told by the value: the
version, the names, the order of entries and of attributes, what is absent and
what is only empty.

A default that is not finite is written as `null`, so that not even its sign
would be told.
-/

namespace ProviderSchema

open Decimal (Binary64)
open Json (SameValue)

variable {same : Binary64 → Binary64 → Prop}

/-- Lists of attributes are alike if the attributes are, one by one. -/
abbrev AttributesAlike (same : Binary64 → Binary64 → Prop) :
    List Attribute → List Attribute → Prop :=
  List.Forall₂ (Attribute.Alike same)

/-- All defaults of the attributes, and of those below them, are finite. -/
abbrev FiniteDefaults (attributes : List Attribute) : Prop :=
  ∀ a ∈ attributes, a.Each Attribute.FiniteDefault

theorem sameValue_schemaToJson_iff {attributes attributes' : List Attribute}
    (h : FiniteDefaults attributes) (h' : FiniteDefaults attributes') :
    SameValue same (schemaToJson attributes) (schemaToJson attributes') ↔
      AttributesAlike same attributes attributes' := by
  rw [schemaToJson, schemaToJson, Json.sameValue_singleton, and_iff_right rfl]
  apply Attribute.sameValue_listToJson_iff
  intro a ha a' ha'
  exact Attribute.sameValue_toJson_iff (h a ha) (h' a' ha')

/-! ## Entries -/

/-- The entries have one name and attributes that are alike. -/
structure SchemaEntry.Alike (same : Binary64 → Binary64 → Prop) (e e' : SchemaEntry) : Prop where
  name : e.name = e'.name
  attributes : AttributesAlike same e.attributes e'.attributes

/-- The providers have one name, and attributes that are alike or none at all. -/
structure ProviderEntry.Alike (same : Binary64 → Binary64 → Prop) (p p' : ProviderEntry) :
    Prop where
  name : p.name = p'.name
  attributes : Option.Rel (AttributesAlike same) p.attributes p'.attributes

theorem SchemaEntry.sameValue_toJson_iff {e e' : SchemaEntry} (h : FiniteDefaults e.attributes)
    (h' : FiniteDefaults e'.attributes) :
    SameValue same e.toJson e'.toJson ↔ e.Alike same e' := by
  unfold toJson
  rw [Json.sameValue_cons rfl rfl, Json.sameValue_text_iff, Json.sameValue_singleton,
    sameValue_schemaToJson_iff h h']
  constructor
  · rintro ⟨hname, -, hattributes⟩
    exact ⟨hname, hattributes⟩
  · rintro ⟨hname, hattributes⟩
    exact ⟨hname, rfl, hattributes⟩

theorem ProviderEntry.sameValue_toJson_iff {p p' : ProviderEntry}
    (h : ∀ attributes, p.attributes = some attributes → FiniteDefaults attributes)
    (h' : ∀ attributes, p'.attributes = some attributes → FiniteDefaults attributes) :
    SameValue same p.toJson p'.toJson ↔ p.Alike same p' := by
  have hschema : Option.Rel (SameValue same) (p.attributes.map schemaToJson)
      (p'.attributes.map schemaToJson) ↔
        Option.Rel (AttributesAlike same) p.attributes p'.attributes := by
    rw [rel_map_iff]
    cases hp : p.attributes with
    | none => cases p'.attributes <;> simp
    | some attributes =>
      cases hp' : p'.attributes with
      | none => simp
      | some attributes' =>
        rw [Option.rel_some_some, Option.rel_some_some,
          sameValue_schemaToJson_iff (h attributes hp) (h' attributes' hp')]
  unfold toJson
  rw [List.singleton_append, List.singleton_append, Json.sameValue_cons, Json.sameValue_text_iff,
    Json.sameValue_member?, hschema]
  · exact ⟨fun ⟨hname, hattributes⟩ => ⟨hname, hattributes⟩,
      fun ⟨hname, hattributes⟩ => ⟨hname, hattributes⟩⟩
  · simp
  · simp

/-! ## Specifications -/

namespace Specification

/-- All defaults of a specification are finite. -/
structure FiniteDefaults (s : Specification) : Prop where
  provider : ∀ attributes, s.provider.attributes = some attributes →
    ProviderSchema.FiniteDefaults attributes
  resources : ∀ e ∈ s.resources, ProviderSchema.FiniteDefaults e.attributes
  dataSources : ∀ e ∈ s.dataSources, ProviderSchema.FiniteDefaults e.attributes

/-- The specifications are the same but for validators that are alike and for
defaults that are the same numbers. -/
structure Alike (same : Binary64 → Binary64 → Prop) (s s' : Specification) : Prop where
  version : s.version = s'.version
  provider : s.provider.Alike same s'.provider
  resources : List.Forall₂ (SchemaEntry.Alike same) s.resources s'.resources
  dataSources : List.Forall₂ (SchemaEntry.Alike same) s.dataSources s'.dataSources

theorem sameValue_entries_iff {entries entries' : List SchemaEntry}
    (h : ∀ e ∈ entries, ProviderSchema.FiniteDefaults e.attributes)
    (h' : ∀ e ∈ entries', ProviderSchema.FiniteDefaults e.attributes) :
    SameValue same (.array (entries.map SchemaEntry.toJson))
        (.array (entries'.map SchemaEntry.toJson)) ↔
      List.Forall₂ (SchemaEntry.Alike same) entries entries' := by
  rw [Json.sameValue_array_iff, List.forall₂_map_left_iff, List.forall₂_map_right_iff]
  apply forall₂_congr_of_mem
  intro e he e' he'
  exact SchemaEntry.sameValue_toJson_iff (h e he) (h' e' he')

/-- Specifications with finite defaults have the same JSON value precisely if
they are alike, whichever numbers count as the same.  If only equal numbers do,
the specifications differ in nothing but the rules of validators that are
written in the same way. -/
theorem sameValue_toJson_iff_alike {same : Binary64 → Binary64 → Prop} {s s' : Specification}
    (h : s.FiniteDefaults) (h' : s'.FiniteDefaults) :
    SameValue same s.toJson s'.toJson ↔ s.Alike same s' := by
  unfold toJson
  rw [Json.sameValue_cons rfl rfl, Json.sameValue_cons rfl rfl, Json.sameValue_cons rfl rfl,
    Json.sameValue_singleton, Json.sameValue_text_iff,
    ProviderEntry.sameValue_toJson_iff h.provider h'.provider,
    sameValue_entries_iff h.resources h'.resources,
    sameValue_entries_iff h.dataSources h'.dataSources]
  constructor
  · rintro ⟨hversion, hprovider, hresources, -, hdataSources⟩
    exact ⟨hversion, hprovider, hresources, hdataSources⟩
  · rintro ⟨hversion, hprovider, hresources, hdataSources⟩
    exact ⟨hversion, hprovider, hresources, rfl, hdataSources⟩

/-- A lamp with a bound for its watts and a default for its dimmer. -/
def ofLamp (description : Option String) (bound dimmed : Binary64) : Specification where
  provider := { name := "light" }
  resources := [⟨"lamp", [.single "power" { computability := .required, description }
    [.scalar "watts" { computability := .required, validators := [⟨.int64, .atLeast bound⟩] }
        (.int64 none),
      .scalar "dimmed" { computability := .computedOptional } (.float64 (some dimmed))]]⟩]
  dataSources := [⟨"lamps", [.collection "names" { computability := .computed } .list
    (.scalar .string)]⟩]

/-- A bound is rounded up and a zero has no sign, so that neither is told; that
there is a description is told even if it is empty. -/
theorem sameValue_toJson_iff_alike_lamp :
    let half : Binary64 := .finite false 1 (-1)
    let one : Binary64 := .finite false 1 0
    let same := fun x y : Binary64 => x.value? = y.value?
    (ofLamp none half (.zero false)).FiniteDefaults ∧
      (ofLamp none one (.zero true)).FiniteDefaults ∧
      (ofLamp (some "") one (.zero true)).FiniteDefaults ∧
      SameValue same (ofLamp none half (.zero false)).toJson
        (ofLamp none one (.zero true)).toJson ∧
      ¬ SameValue same (ofLamp none half (.zero false)).toJson
        (ofLamp (some "") one (.zero true)).toJson := by
  intro half one same
  have h : (ofLamp none half (.zero false)).FiniteDefaults :=
    ⟨by simp [ofLamp], by decide, by decide⟩
  have h' : (ofLamp none one (.zero true)).FiniteDefaults :=
    ⟨by simp [ofLamp], by decide, by decide⟩
  have hdescribed : (ofLamp (some "") one (.zero true)).FiniteDefaults :=
    ⟨by simp [ofLamp], by decide, by decide⟩
  refine ⟨h, h', hdescribed, (sameValue_toJson_iff_alike h h').mpr ?_, ?_⟩
  · have hbound : Validator.Alike ⟨.int64, .atLeast half⟩ ⟨.int64, .atLeast one⟩ :=
      ⟨rfl, by decide⟩
    have hzero : same (.zero false) (.zero true) := by
      simp [same, Binary64.zero, Binary64.value?, Binary64.valueOf]
    refine ⟨rfl, ⟨rfl, .none⟩, .cons ⟨rfl, .cons ?_ .nil⟩ .nil, .cons ⟨rfl, .cons ?_ .nil⟩ .nil⟩
    · refine .single "power" ⟨rfl, rfl, rfl, rfl, .nil⟩ (.cons ?_ (.cons ?_ .nil))
      · exact .scalar "watts" ⟨rfl, rfl, rfl, rfl, .cons hbound .nil⟩ (.int64 none)
      · exact .scalar "dimmed" ⟨rfl, rfl, rfl, rfl, .nil⟩ (.float64 (.some hzero))
    · exact .collection "names" .list (.scalar .string) ⟨rfl, rfl, rfl, rfl, .nil⟩
  · rw [sameValue_toJson_iff_alike h hdescribed]
    intro halike
    cases halike.resources with
    | cons hlamp _ =>
      cases hlamp.attributes with
      | cons hpower _ =>
        cases hpower with
        | single _ htraits _ => exact absurd htraits.description (by decide)

end Specification

end ProviderSchema
