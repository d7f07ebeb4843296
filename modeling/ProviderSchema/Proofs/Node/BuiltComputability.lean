import ProviderSchema.Proofs.Attribute.Update
import ProviderSchema.Proofs.Node.BuiltNames

/-!
# Who sets what is built

A builder decides about the computability of every attribute that it builds,
wherever it is: it is the one that is forced, or else that of a property which
its object requires or does not require, and an attribute with a default need
not be set.  So whatever holds of these few values (`Builder.Decides`) holds
of all attributes that are built (`Builder.buildsComputability`).
-/

namespace ProviderSchema

open OpenApi

/-- The computability of the attribute and of all attributes below it
satisfies `P`. -/
inductive Attribute.EachComputability (P : Computability → Prop) : Attribute → Prop where
  | mk {a : Attribute} (own : P a.traits.computability)
      (below : ∀ l, a.children? = some l → ∀ c ∈ l, c.EachComputability P) :
      EachComputability P a

variable {P : Computability → Prop}

namespace Attribute

theorem EachComputability.own {a : Attribute} (h : a.EachComputability P) :
    P a.traits.computability := by
  obtain ⟨hown, -⟩ := h
  exact hown

theorem EachComputability.children {a : Attribute} (h : a.EachComputability P)
    {l : List Attribute} (hl : a.children? = some l) : ∀ c ∈ l, c.EachComputability P := by
  obtain ⟨-, hbelow⟩ := h
  exact hbelow l hl

theorem EachComputability.of_findNames? {path : List String} {attributes : List Attribute}
    (h : ∀ a ∈ attributes, a.EachComputability P) {a : Attribute}
    (ha : findNames? path attributes = some a) : a.EachComputability P := by
  induction path generalizing attributes with
  | nil => cases ha
  | cons first rest ih =>
    cases rest with
    | nil => exact h a (List.mem_of_find?_eq_some ha)
    | cons second rest =>
      rw [findNames?] at ha
      · split at ha
        · rename_i above habove
          obtain ⟨children, hchildren, ha⟩ := Option.bind_eq_some_iff.mp ha
          exact ih ((h above (List.mem_of_find?_eq_some habove)).children hchildren) ha
        · cases ha
      · simp

theorem EachComputability.mapTraits {a : Attribute} (h : a.EachComputability P)
    {f : Traits → Traits} (hf : ∀ t, (f t).computability = t.computability) :
    (a.mapTraits f).EachComputability P := by
  refine ⟨?_, ?_⟩
  · rw [traits_mapTraits, hf]
    exact h.own
  · intro l hl
    rw [children?_mapTraits] at hl
    exact h.children hl

end Attribute

namespace Builder

/-- All that a builder decides satisfies `P`. -/
structure Decides (b : Builder) (P : Computability → Prop) : Prop where
  required : P (b.forced.getD .required)
  unrequired : P (b.forced.getD b.flavor.unrequired)
  /-- What has a default need not be set. -/
  withDefault : ∀ c, P c → c = .required ∨ c = .optional → P .computedOptional

/-- A computability that is forced and that defaults do not change is that of
all attributes. -/
theorem decides_of_forced {b : Builder} {c : Computability} (hforced : b.forced = some c)
    (hc : c ≠ .required ∧ c ≠ .optional) : b.Decides (· = c) := by
  refine ⟨by rw [hforced]; rfl, by rw [hforced]; rfl, ?_⟩
  rintro _ rfl (h | h)
  · exact absurd h hc.1
  · exact absurd h hc.2

/-- Nothing is optional in a resource: what is not required may be computed. -/
theorem decides_of_resource {b : Builder} (hforced : b.forced = none)
    (hflavor : b.flavor = .resource) :
    b.Decides fun c => c = .required ∨ c = .computedOptional := by
  refine ⟨by rw [hforced]; exact .inl rfl, by rw [hforced, hflavor]; exact .inr rfl, ?_⟩
  intro _ _ _
  exact .inr rfl

variable {b : Builder}

theorem Decides.getD_computabilityOf (h : b.Decides P) (owner : Facts) (p : Property) :
    P (b.forced.getD (b.computabilityOf owner p)) := by
  unfold computabilityOf
  split
  · exact h.required
  · exact h.unrequired

theorem Decides.computability_scalar (h : b.Decides P) {c : Computability}
    (hc : P (b.forced.getD c)) (name : String) (facts : Facts) (kind : ScalarKind) :
    P (b.scalar name facts c kind).traits.computability := by
  change P (Builder.withDefault _ (b.forced.getD c))
  unfold Builder.withDefault
  split
  · rename_i hdefault
    exact h.withDefault _ hc hdefault.2
  · exact hc

/-- The computability of whatever is built of a node satisfies `P`. -/
structure BuildsComputability (P : Computability → Prop) (b : Builder) (n : Node) : Prop where
  named : ∀ name c path a, P (b.forced.getD c) → b.named name c path n = .ok a →
    a.EachComputability P
  properties : ∀ owner path attributes,
    b.propertyAttributes owner path n.properties = .ok attributes →
      ∀ a ∈ attributes, a.EachComputability P

theorem eachComputability_collected {name path : String} {traits : Traits}
    {kind : CollectionKind} {member : Except SchemaError Node} (htraits : P traits.computability)
    (h : ∀ m, member = .ok m → BuildsComputability P b m) {a : Attribute}
    (ha : b.collected name traits kind path member = .ok a) : a.EachComputability P := by
  obtain ⟨m, hm, ⟨-, attributes, hattributes, rfl⟩ | ⟨-, element, -, rfl⟩⟩ :=
    collected_eq_ok_iff.mp ha
  · refine ⟨htraits, ?_⟩
    rintro l ⟨⟩
    exact (h m hm).properties _ _ _ hattributes
  · refine ⟨htraits, ?_⟩
    rintro l ⟨⟩

/-- Whatever is built has a computability that the builder decides on. -/
theorem buildsComputability (hb : b.Decides P) (n : Node) : BuildsComputability P b n := by
  induction n using Node.inductionOnChildren with
  | mk n ihproperties ihitems ihvalue =>
    have hproperties : ∀ owner path attributes,
        b.propertyAttributes owner path n.properties = .ok attributes →
          ∀ a ∈ attributes, a.EachComputability P := fun owner path attributes hbuilt =>
      forall_mem_propertyAttributes (fun p child hmem a =>
        (ihproperties p child hmem).named _ _ _ a (hb.getD_computabilityOf owner p)) hbuilt
    refine ⟨?_, hproperties⟩
    intro name c path a hc ha
    rw [named_eq] at ha
    split at ha
    · cases ha
      refine ⟨hb.computability_scalar hc _ _ _, ?_⟩
      rintro l ⟨⟩
    · exact eachComputability_collected hc ihitems ha
    · exact eachComputability_collected hc ihvalue ha
    · obtain ⟨attributes, hattributes, rfl⟩ := map_eq_ok_iff.mp ha
      refine ⟨hc, ?_⟩
      rintro l ⟨⟩
      exact hproperties _ _ _ hattributes

theorem eachComputability_attributes (hb : b.Decides P) {n : Node} {attributes : List Attribute}
    (h : b.attributes n = .ok attributes) : ∀ a ∈ attributes, a.EachComputability P :=
  (buildsComputability hb n).properties _ _ _ (attributes_eq_ok_iff.mp h).2

theorem eachComputability_attributeNamed (hb : b.Decides P) {n : Node} {name : String}
    {c : Computability} (hc : P (b.forced.getD c)) {a : Attribute}
    (h : b.attributeNamed name n c = .ok a) : a.EachComputability P :=
  (buildsComputability hb n).named _ _ _ _ hc (mapError_eq_ok_iff.mp h)

end Builder

end ProviderSchema
