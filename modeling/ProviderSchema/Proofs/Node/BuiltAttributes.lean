import ProviderSchema.Proofs.Attribute.ErasedMerge
import ProviderSchema.Proofs.Node.BuiltNames

/-!
# What holds of all attributes that are built

A builder makes attributes in four ways: scalars, collections of values,
collections of nested attributes and single groups of them.  What holds of
each of the four, whatever node they are made of (`Builder.Makes`), holds
everywhere in what is built of any node (`Builder.Makes.buildsEach`).

Of a collection of values it is known that its members are no objects: a
member that is a record has nested attributes, and the element type of any
other node is not that of an object (`Node.isObject_of_elementType_eq_ok`).
-/

namespace ProviderSchema

open Attribute (Each)

theorem Node.isObject_of_elementType_eq_ok {n : Node} {t : ElementType}
    (h : n.elementType = .ok t) (hform : n.facts.form ≠ .record) : t.isObject = false := by
  rw [elementType_eq] at h
  split at h
  · cases h
    rfl
  · obtain ⟨_, _, -, -, rfl⟩ := collectionType_eq_ok h
    rfl
  · obtain ⟨_, _, -, -, rfl⟩ := collectionType_eq_ok h
    rfl
  · rename_i hrecord
    exact absurd hrecord hform

namespace Builder

theorem kind_scalarShape (b : Builder) (facts : Facts) (kind : ScalarKind) :
    (b.scalarShape facts kind).kind = kind := by
  cases kind <;> rfl

/-- Only resources have defaults. -/
theorem hasDefault_scalarShape {b : Builder} {facts : Facts} {kind : ScalarKind}
    (h : (b.scalarShape facts kind).hasDefault = true) : b.flavor = .resource := by
  by_contra hflavor
  have hnone {α : Type} (read : Json → Option α) : b.default? facts read = none := by
    unfold default? Flavor.hasDefaults
    rw [if_neg (by simpa using hflavor)]
  cases kind <;> simp [scalarShape, ScalarShape.hasDefault, hnone] at h

/-- What has a default need not be given. -/
theorem withDefault_ne {shape : ScalarShape} (h : shape.hasDefault = true) (c : Computability) :
    withDefault shape c ≠ .required ∧ withDefault shape c ≠ .optional := by
  unfold withDefault
  split
  · exact ⟨by decide, by decide⟩
  · rename_i hc
    exact not_or.mp fun hor => hc ⟨h, hor⟩

/-- `P` holds of every attribute that is made, whatever is below it. -/
structure Makes (b : Builder) (P : Attribute → Prop) : Prop where
  scalar : ∀ name facts c kind, P (b.scalar name facts c kind)
  collection : ∀ name facts c kind element, element.isObject = false →
    P (.collection name (b.collectionTraits facts c kind) kind element)
  nested : ∀ name facts c kind attributes,
    P (.nested name (b.collectionTraits facts c kind) kind attributes)
  single : ∀ name facts c attributes, P (.single name (b.traits facts c) attributes)

/-- `P` holds everywhere in what is built of a node. -/
structure BuildsEach (b : Builder) (P : Attribute → Prop) (n : Node) : Prop where
  named : ∀ name c path a, b.named name c path n = .ok a → a.Each P
  properties : ∀ owner path attributes,
    b.propertyAttributes owner path n.properties = .ok attributes → ∀ a ∈ attributes, a.Each P

variable {b : Builder} {P : Attribute → Prop}

theorem Makes.each_collected (hb : b.Makes P) {name path : String} {facts : Facts}
    {c : Computability} {kind : CollectionKind} {member : Except SchemaError Node}
    (h : ∀ m, member = .ok m → BuildsEach b P m) {a : Attribute}
    (ha : b.collected name (b.collectionTraits facts c kind) kind path member = .ok a) :
    a.Each P := by
  obtain ⟨m, hm, ⟨-, attributes, hattributes, rfl⟩ | ⟨hform, element, helement, rfl⟩⟩ :=
    collected_eq_ok_iff.mp ha
  · refine ⟨hb.nested name facts c kind attributes, ?_⟩
    rintro l ⟨⟩
    exact (h m hm).properties _ _ _ hattributes
  · refine ⟨hb.collection name facts c kind element ?_, fun l hl => by cases hl⟩
    exact Node.isObject_of_elementType_eq_ok helement hform

/-- What holds of every attribute that is made holds everywhere in what is
built of a node. -/
theorem Makes.buildsEach (hb : b.Makes P) (n : Node) : BuildsEach b P n := by
  induction n using Node.inductionOnChildren with
  | mk n ihproperties ihitems ihvalue =>
    have hproperties : ∀ owner path attributes,
        b.propertyAttributes owner path n.properties = .ok attributes →
          ∀ a ∈ attributes, a.Each P := fun owner path attributes hbuilt =>
      forall_mem_propertyAttributes
        (fun p child hmem => (ihproperties p child hmem).named _ _ _) hbuilt
    refine ⟨?_, hproperties⟩
    intro name c path a ha
    rw [named_eq] at ha
    split at ha
    · cases ha
      exact ⟨hb.scalar _ _ _ _, fun l hl => by cases hl⟩
    · exact hb.each_collected ihitems ha
    · exact hb.each_collected ihvalue ha
    · obtain ⟨attributes, hattributes, rfl⟩ := map_eq_ok_iff.mp ha
      refine ⟨hb.single name n.facts c attributes, ?_⟩
      rintro l ⟨⟩
      exact hproperties _ _ _ hattributes

theorem Makes.each_attributes (hb : b.Makes P) {n : Node} {attributes : List Attribute}
    (h : b.attributes n = .ok attributes) : ∀ a ∈ attributes, a.Each P :=
  (hb.buildsEach n).properties _ _ _ (attributes_eq_ok_iff.mp h).2

theorem Makes.each_attributeNamed (hb : b.Makes P) {n : Node} {name : String} {c : Computability}
    {a : Attribute} (h : b.attributeNamed name n c = .ok a) : a.Each P :=
  (hb.buildsEach n).named _ _ _ _ (mapError_eq_ok_iff.mp h)

end Builder

end ProviderSchema
