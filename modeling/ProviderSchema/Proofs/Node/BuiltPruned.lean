import ProviderSchema.Proofs.Attribute.Pruning
import ProviderSchema.Proofs.Node.BuiltNames

/-!
# What is built if attributes are ignored

A builder that ignores paths does not look at the properties at these paths.
So it builds whatever it builds if it ignores none, less the attributes at
these paths (`Builder.buildsPruned`).  It may build more, as what it does not
look at cannot fail.  In any case it builds nothing at these paths
(`Builder.buildsWithout`).

Paths are those that `pathOf` writes: a builder knows a path by its text, and
takes the empty one for that of the node it started with.
-/

namespace ProviderSchema

open Attribute (pathOf isIgnored pruned prunedBelow withoutIgnored)

namespace Builder

/-- The builder, with other paths that are ignored. -/
def ignoring (b : Builder) (ignores : List String) : Builder := { b with ignores }

variable {b : Builder} {ignores : List String}

/-- What is built of a node is built, less what is ignored, if something is
ignored. -/
structure BuildsPruned (b : Builder) (ignores : List String) (n : Node) : Prop where
  named : ∀ name c path a, (b.ignoring []).named name c (pathOf path) n = .ok a →
    (b.ignoring ignores).named name c (pathOf path) n =
      .ok (prunedBelow (isIgnored pathOf ignores) path a)
  properties : ∀ owner path attributes,
    (b.ignoring []).propertyAttributes owner (pathOf path) n.properties = .ok attributes →
      (b.ignoring ignores).propertyAttributes owner (pathOf path) n.properties =
        .ok (pruned (isIgnored pathOf ignores) path attributes)

theorem pruned_propertyAttributes {properties : List (Property × Except SchemaError Node)}
    (h : ∀ p child, (p, .ok child) ∈ properties → b.BuildsPruned ignores child) {owner : Facts}
    {path : List String} {attributes : List Attribute}
    (hattributes : (b.ignoring []).propertyAttributes owner (pathOf path) properties =
      .ok attributes) :
    (b.ignoring ignores).propertyAttributes owner (pathOf path) properties =
      .ok (pruned (isIgnored pathOf ignores) path attributes) := by
  induction properties generalizing attributes with
  | nil =>
    rw [propertyAttributes] at hattributes
    cases hattributes
    rw [propertyAttributes, pruned]
  | cons entry rest ih =>
    obtain ⟨p, child⟩ := entry
    have hrest := fun q m hmem => h q m (List.mem_cons_of_mem _ hmem)
    rcases propertyAttributes_cons_eq_ok hattributes with
      ⟨hignored, -⟩ | ⟨-, n, a, later, rfl, ha, hlater, rfl⟩
    · cases hignored
    · rw [← Attribute.pathOf_concat] at ha
      have hname := named_name ha
      have hnamed := (h p n List.mem_cons_self).named _ _ _ _ ha
      cases hdrop : isIgnored pathOf ignores (path ++ [p.name]) with
      | true =>
        have hmem := Attribute.isIgnored_iff.mp hdrop
        rw [Attribute.pathOf_concat] at hmem
        rw [propertyAttributes_cons_of_mem hmem,
          Attribute.pruned_cons_of_drop (by rw [hname, hdrop])]
        exact ih hrest hlater
      | false =>
        have hmem := mt Attribute.isIgnored_iff.mpr (Bool.eq_false_iff.mp hdrop)
        rw [Attribute.pathOf_concat] at hmem hnamed
        rw [propertyAttributes_cons_of_named hmem hnamed, ih hrest hlater,
          Attribute.pruned_cons_of_keep (by rw [hname, hdrop]), hname]
        rfl

/-- A collection is built of what is left of its members. -/
theorem pruned_collected {name : String} {traits : Traits} {kind : CollectionKind}
    {path : List String} {member : Except SchemaError Node}
    (h : ∀ m, member = .ok m → b.BuildsPruned ignores m) {a : Attribute}
    (ha : (b.ignoring []).collected name traits kind (pathOf path) member = .ok a) :
    (b.ignoring ignores).collected name traits kind (pathOf path) member =
      .ok (prunedBelow (isIgnored pathOf ignores) path a) := by
  obtain ⟨m, hm, ⟨hform, attributes, hattributes, rfl⟩ | ⟨hform, element, helement, rfl⟩⟩ :=
    collected_eq_ok_iff.mp ha
  · have hpruned := (h m hm).properties _ _ _ hattributes
    rw [collected_eq_ok_iff, prunedBelow]
    exact ⟨m, hm, .inl ⟨hform, _, hpruned, rfl⟩⟩
  · rw [collected_eq_ok_iff, prunedBelow]
    exact ⟨m, hm, .inr ⟨hform, element, helement, rfl⟩⟩

/-- What is ignored is left out of what is built, and nothing else changes. -/
theorem buildsPruned (b : Builder) (ignores : List String) (n : Node) :
    b.BuildsPruned ignores n := by
  induction n using Node.inductionOnChildren with
  | mk n ihproperties ihitems ihvalue =>
    refine ⟨?_, fun _ _ _ => pruned_propertyAttributes ihproperties⟩
    intro name c path a ha
    rw [named_eq] at ha ⊢
    split at ha
    · cases ha
      rfl
    · exact pruned_collected ihitems ha
    · exact pruned_collected ihvalue ha
    · obtain ⟨attributes, hattributes, rfl⟩ := map_eq_ok_iff.mp ha
      rw [pruned_propertyAttributes ihproperties hattributes, prunedBelow]
      rfl

theorem pruned_attributes {n : Node} {attributes : List Attribute}
    (h : (b.ignoring []).attributes n = .ok attributes) :
    (b.ignoring ignores).attributes n = .ok (withoutIgnored pathOf ignores attributes) := by
  obtain ⟨hkind, hattributes⟩ := attributes_eq_ok_iff.mp h
  exact attributes_eq_ok_iff.mpr ⟨hkind, (b.buildsPruned ignores n).properties _ [] _ hattributes⟩

theorem pruned_attributeNamed {n : Node} {name : String} {c : Computability} {a : Attribute}
    (h : (b.ignoring []).attributeNamed name n c = .ok a) :
    (b.ignoring ignores).attributeNamed name n c =
      .ok (prunedBelow (isIgnored pathOf ignores) [name] a) :=
  mapError_eq_ok_iff.mpr
    ((b.buildsPruned ignores n).named name c [name] a (mapError_eq_ok_iff.mp h))

/-! ## What is not built -/

/-- What is built of a node has nothing at the paths that `drop` tells. -/
structure BuildsWithout (b : Builder) (drop : List String → Bool) (n : Node) : Prop where
  named : ∀ name c path a, b.named name c (pathOf path) n = .ok a → prunedBelow drop path a = a
  properties : ∀ owner path attributes,
    b.propertyAttributes owner (pathOf path) n.properties = .ok attributes →
      pruned drop path attributes = attributes

variable {drop : List String → Bool}

theorem pruned_eq_of_propertyAttributes (hdrop : ∀ path, drop path = true → pathOf path ∈ b.ignores)
    {properties : List (Property × Except SchemaError Node)}
    (h : ∀ p child, (p, .ok child) ∈ properties → b.BuildsWithout drop child) {owner : Facts}
    {path : List String} {attributes : List Attribute}
    (hattributes : b.propertyAttributes owner (pathOf path) properties = .ok attributes) :
    pruned drop path attributes = attributes := by
  induction properties generalizing attributes with
  | nil =>
    rw [propertyAttributes] at hattributes
    cases hattributes
    rw [pruned]
  | cons entry rest ih =>
    obtain ⟨p, child⟩ := entry
    have hrest := fun q m hmem => h q m (List.mem_cons_of_mem _ hmem)
    rcases propertyAttributes_cons_eq_ok hattributes with
      ⟨-, hlater⟩ | ⟨hbuilt, n, a, later, rfl, ha, hlater, rfl⟩
    · exact ih hrest hlater
    · rw [← Attribute.pathOf_concat] at hbuilt ha
      have hname := named_name ha
      have hkeep : drop (path ++ [a.name]) = false := by
        rw [hname]
        exact Bool.eq_false_iff.mpr (mt (hdrop _) hbuilt)
      have hnamed := (h p n List.mem_cons_self).named _ _ _ _ ha
      rw [Attribute.pruned_cons_of_keep hkeep, ih hrest hlater, hname, hnamed]

/-- Nothing is built at the paths that are ignored. -/
theorem buildsWithout (hdrop : ∀ path, drop path = true → pathOf path ∈ b.ignores) (n : Node) :
    b.BuildsWithout drop n := by
  have hcollected : ∀ {name traits kind path member a},
      (∀ m, member = .ok m → b.BuildsWithout drop m) →
        b.collected name traits kind (pathOf path) member = .ok a →
          prunedBelow drop path a = a := by
    intro name traits kind path member a h ha
    obtain ⟨m, hm, ⟨-, attributes, hattributes, rfl⟩ | ⟨-, element, -, rfl⟩⟩ :=
      collected_eq_ok_iff.mp ha
    · rw [prunedBelow, (h m hm).properties _ _ _ hattributes]
    · rw [prunedBelow]
  induction n using Node.inductionOnChildren with
  | mk n ihproperties ihitems ihvalue =>
    refine ⟨?_, fun _ _ _ => pruned_eq_of_propertyAttributes hdrop ihproperties⟩
    intro name c path a ha
    rw [named_eq] at ha
    split at ha
    · cases ha
      rfl
    · exact hcollected ihitems ha
    · exact hcollected ihvalue ha
    · obtain ⟨attributes, hattributes, rfl⟩ := map_eq_ok_iff.mp ha
      rw [prunedBelow, pruned_eq_of_propertyAttributes hdrop ihproperties hattributes]

theorem pruned_eq_of_attributes (hdrop : ∀ path, drop path = true → pathOf path ∈ b.ignores)
    {n : Node} {attributes : List Attribute} (h : b.attributes n = .ok attributes) :
    pruned drop [] attributes = attributes :=
  (buildsWithout hdrop n).properties _ [] _ (attributes_eq_ok_iff.mp h).2

theorem prunedBelow_eq_of_attributeNamed
    (hdrop : ∀ path, drop path = true → pathOf path ∈ b.ignores) {n : Node} {name : String}
    {c : Computability} {a : Attribute} (h : b.attributeNamed name n c = .ok a) :
    prunedBelow drop [name] a = a :=
  (buildsWithout hdrop n).named name c [name] a (mapError_eq_ok_iff.mp h)

end Builder

end ProviderSchema
