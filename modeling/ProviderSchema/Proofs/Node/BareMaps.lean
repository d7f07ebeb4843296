import ProviderSchema.Proofs.Node.BuiltNames
import ProviderSchema.Proofs.Node.DepthAgreement
import ProviderSchema.Proofs.Node.Location
import ProviderSchema.Proofs.Node.Outline

/-!
# The fixed properties of maps

An object whose values are described by one schema is a map, even if it declares
fixed properties.  `Node.withBareMaps` takes from every map of a node all that it
declares beside the schema of its values.  Neither the shape of a node nor the
attribute of a node tells the difference (`Node.elementType_withBareMaps`,
`Builder.buildsBare`).

`Builder.attributes` tells it if the node that it starts with is a map: it does not
ask whether the node is one and makes attributes of its fixed properties.  So it
tells no difference exactly if all of these are ignored
(`Builder.fixedProperties_seen_only_at_root`).
-/

namespace ProviderSchema

open OpenApi

/-! ## Bare maps -/

/-- No more than the schema of further values. -/
def OpenApi.Children.onlyAdditional (c : Children Schema) : Children Schema :=
  { additional := c.additional }

namespace Facts

/-- The facts, if they are those of a map as if it declared no more than the schema of
its values. -/
def bare (f : Facts) : Facts :=
  if f.isMap then { f with children := f.children.onlyAdditional } else f

theorem form_eq_map_iff {f : Facts} : f.form = .map ↔ f.isMap = true := by
  unfold form isMap
  cases f.kind <;> simp

theorem bare_of_form_ne {f : Facts} (h : f.form ≠ .map) : f.bare = f := by
  rw [bare, if_neg (mt form_eq_map_iff.mpr h)]

theorem agree_bare (f : Facts) : f.Agree f.bare := by
  unfold bare
  split <;> exact ⟨rfl, rfl⟩

end Facts

namespace Node

mutual

/-- The node with all maps bare. -/
def withBareMaps : Node → Node
  | .mk facts properties items mapValue =>
    .mk facts.bare
      (if facts.isMap then [] else withBareMapsIn properties)
      (if facts.isMap then .error { fault := .noItems }
        else match items with
          | .error e => .error e
          | .ok n => .ok (withBareMaps n))
      (match mapValue with
        | .error e => .error e
        | .ok n => .ok (withBareMaps n))

/-- Properties with all maps bare in their nodes. -/
def withBareMapsIn :
    List (Property × Except SchemaError Node) → List (Property × Except SchemaError Node)
  | [] => []
  | (p, .error e) :: rest => (p, .error e) :: withBareMapsIn rest
  | (p, .ok n) :: rest => (p, .ok (withBareMaps n)) :: withBareMapsIn rest

end

theorem withBareMapsIn_eq_map (properties : List (Property × Except SchemaError Node)) :
    withBareMapsIn properties = properties.map fun (p, n) => (p, n.map withBareMaps) := by
  induction properties with
  | nil =>
    rw [withBareMapsIn]
    rfl
  | cons entry rest ih =>
    obtain ⟨p, _ | n⟩ := entry <;> rw [withBareMapsIn, ih] <;> rfl

theorem withBareMaps_eq (n : Node) :
    n.withBareMaps = .mk n.facts.bare
      (if n.facts.isMap then [] else n.properties.map fun (p, m) => (p, m.map withBareMaps))
      (if n.facts.isMap then .error { fault := .noItems } else n.items.map withBareMaps)
      (n.mapValue.map withBareMaps) := by
  obtain ⟨facts, properties, items, mapValue⟩ := n
  rw [withBareMaps.eq_def]
  dsimp only
  rw [withBareMapsIn_eq_map]
  cases items <;> cases mapValue <;> rfl

variable {n : Node}

theorem facts_withBareMaps : n.withBareMaps.facts = n.facts.bare := by
  rw [withBareMaps_eq]
  rfl

theorem mapValue_withBareMaps : n.withBareMaps.mapValue = n.mapValue.map withBareMaps := by
  rw [withBareMaps_eq]
  rfl

theorem properties_withBareMaps (h : n.facts.form ≠ .map) :
    n.withBareMaps.properties = n.properties.map fun (p, m) => (p, m.map withBareMaps) := by
  rw [withBareMaps_eq, properties, if_neg (mt Facts.form_eq_map_iff.mpr h)]

theorem items_withBareMaps (h : n.facts.form ≠ .map) :
    n.withBareMaps.items = n.items.map withBareMaps := by
  rw [withBareMaps_eq, items, if_neg (mt Facts.form_eq_map_iff.mpr h)]

theorem properties_withBareMaps_of_isMap (h : n.facts.isMap = true) :
    n.withBareMaps.properties = [] := by
  rw [withBareMaps_eq, properties, if_pos h]

/-- The children of the node with all maps bare are children of the node. -/
theorem exists_child_of_withBareMaps {step : Step} {m : Node} (h : Child n.withBareMaps step m) :
    ∃ m', Child n step m' ∧ m = m'.withBareMaps := by
  cases h with
  | @property _ p h =>
    by_cases hform : n.facts.form = .map
    · rw [properties_withBareMaps_of_isMap (Facts.form_eq_map_iff.mp hform)] at h
      cases h
    · rw [properties_withBareMaps hform] at h
      obtain ⟨⟨q, child⟩, hmem, heq⟩ := List.mem_map.mp h
      obtain ⟨rfl, hm⟩ := Prod.mk.inj heq
      obtain ⟨m', rfl, rfl⟩ := map_eq_ok_iff.mp hm
      exact ⟨m', .property hmem, rfl⟩
  | items h =>
    rw [withBareMaps_eq, items] at h
    split at h
    · cases h
    · obtain ⟨m', hm', rfl⟩ := map_eq_ok_iff.mp h
      exact ⟨m', .items hm', rfl⟩
  | mapValue h =>
    rw [mapValue_withBareMaps] at h
    obtain ⟨m', hm', rfl⟩ := map_eq_ok_iff.mp h
    exact ⟨m', .mapValue hm', rfl⟩

/-- Every map in it declares no more than the schema of its values. -/
theorem bare_of_reaches_withBareMaps {path : List Step} {m : Node}
    (h : n.withBareMaps.Reaches path m) (hmap : m.facts.isMap = true) :
    m.properties = [] ∧ m.facts.children = m.facts.children.onlyAdditional := by
  obtain ⟨m', rfl⟩ : ∃ m' : Node, m = m'.withBareMaps := by
    refine h.forall (P := fun m => ∃ m' : Node, m = m'.withBareMaps) ?_ ⟨n, rfl⟩
    rintro _ m step ⟨n', rfl⟩ hchild
    obtain ⟨m', -, hm'⟩ := exists_child_of_withBareMaps hchild
    exact ⟨m', hm'⟩
  rw [facts_withBareMaps, ← (Facts.agree_bare m'.facts).isMap] at hmap
  refine ⟨properties_withBareMaps_of_isMap hmap, ?_⟩
  rw [facts_withBareMaps, Facts.bare, if_pos hmap]
  rfl

theorem form_withBareMaps : n.withBareMaps.facts.form = n.facts.form := by
  rw [facts_withBareMaps, ← (Facts.agree_bare n.facts).form_eq]

/-- The shape of a node does not depend on the fixed properties of maps. -/
theorem elementType_withBareMaps (n : Node) : n.withBareMaps.elementType = n.elementType := by
  induction n using Node.inductionOnChildren with
  | mk n ihproperties ihitems ihvalue =>
    rw [elementType_eq, elementType_eq n, form_withBareMaps, mapValue_withBareMaps,
      collectionType_map _ ihvalue]
    by_cases hform : n.facts.form = .map
    · rw [hform]
    · rw [facts_withBareMaps, Facts.bare_of_form_ne hform, properties_withBareMaps hform,
        items_withBareMaps hform, elementFields_map ihproperties, collectionType_map _ ihitems]

end Node

/-! ## What is built -/

namespace Builder

variable {b : Builder}

/-- The same is built of a node and of the node with all maps bare. -/
structure BuildsBare (b : Builder) (n : Node) : Prop where
  named : ∀ name c path, b.named name c path n.withBareMaps = b.named name c path n
  fields : n.facts.form ≠ .map → ∀ path,
    b.propertyAttributes n.withBareMaps.facts path n.withBareMaps.properties =
      b.propertyAttributes n.facts path n.properties

theorem collected_withBareMaps (name : String) (traits : Traits) (kind : CollectionKind)
    (path : String) {member : Except SchemaError Node} (h : ∀ m, member = .ok m → b.BuildsBare m) :
    b.collected name traits kind path (member.map Node.withBareMaps) =
      b.collected name traits kind path member := by
  cases member with
  | error e => rfl
  | ok m =>
    change b.collected name traits kind path (.ok m.withBareMaps) = _
    unfold collected
    dsimp only
    rw [Node.form_withBareMaps, Node.elementType_withBareMaps]
    split
    · rename_i hform
      rw [(h m rfl).fields (by simp [hform])]
    · rfl

/-- The attribute of a node does not depend on the fixed properties of maps. -/
theorem buildsBare (b : Builder) (n : Node) : b.BuildsBare n := by
  induction n using Node.inductionOnChildren with
  | mk n ihproperties ihitems ihvalue =>
    have hfields := propertyAttributes_map fun p child hmem => (ihproperties p child hmem).named
    refine ⟨fun name c path => ?_, fun hform path => ?_⟩
    · have hagree := Facts.agree_bare n.facts
      rw [named_eq, named_eq b name c path n, Node.form_withBareMaps, Node.mapValue_withBareMaps,
        collected_withBareMaps _ _ _ _ ihvalue, Node.facts_withBareMaps]
      by_cases hform : n.facts.form = .map
      · rw [hform]
        dsimp only
        rw [hagree.collectionTraits_eq]
      · rw [Facts.bare_of_form_ne hform, Node.properties_withBareMaps hform,
          Node.items_withBareMaps hform, hfields, collected_withBareMaps _ _ _ _ ihitems]
    · rw [Node.facts_withBareMaps, Facts.bare_of_form_ne hform, Node.properties_withBareMaps hform]
      exact hfields n.facts path

theorem attributeNamed_withBareMaps (b : Builder) (name : String) (n : Node)
    (c : Computability) :
    b.attributeNamed name n.withBareMaps c = b.attributeNamed name n c := by
  rw [attributeNamed, attributeNamed, (b.buildsBare n).named]

/-- Of properties that are all ignored nothing is built. -/
theorem propertyAttributes_of_ignored {owner : Facts} {path : String}
    {properties : List (Property × Except SchemaError Node)}
    (h : ∀ entry ∈ properties, below path entry.1.name ∈ b.ignores) :
    b.propertyAttributes owner path properties = .ok [] := by
  induction properties with
  | nil => rw [propertyAttributes]
  | cons entry rest ih =>
    rw [List.forall_mem_cons] at h
    rw [propertyAttributes_cons_of_mem h.1, ih h.2]

/-- Nothing is built of a map that is bare. -/
theorem attributes_withBareMaps_of_isMap {n : Node} (h : n.facts.isMap = true) :
    b.attributes n.withBareMaps = .ok [] := by
  have hkind : n.facts.kind = .object := by
    unfold Facts.isMap at h
    simpa using (Bool.and_eq_true_iff.mp h).1
  rw [attributes_eq_ok_iff, Node.facts_withBareMaps, ← (Facts.agree_bare n.facts).kind_eq,
    Node.properties_withBareMaps_of_isMap h, propertyAttributes]
  exact ⟨hkind, rfl⟩

/-- The fixed properties of maps are seen neither in the shape of a node nor in its
attribute.  The attributes of a node depend on the fixed properties of the node itself
and on no others: if it is a map, they are the attributes of all fixed properties that
are not ignored. -/
theorem fixedProperties_seen_only_at_root (b : Builder) (n : Node) :
    (∀ path m, n.withBareMaps.Reaches path m → m.facts.isMap = true →
        m.properties = [] ∧ m.facts.children = m.facts.children.onlyAdditional) ∧
      n.withBareMaps.elementType = n.elementType ∧
      (∀ name c, b.attributeNamed name n.withBareMaps c = b.attributeNamed name n c) ∧
      (b.attributes n.withBareMaps = b.attributes n ↔
        (n.facts.isMap = true → ∀ entry ∈ n.properties, entry.1.name ∈ b.ignores)) ∧
      (n.facts.isMap = true → b.attributes n.withBareMaps = .ok [] ∧
        ∀ attributes, b.attributes n = .ok attributes →
          attributes.map Attribute.name =
            (n.properties.map (·.1.name)).filter fun name => name ∉ b.ignores) := by
  have hnames : ∀ {attributes}, b.attributes n = .ok attributes →
      attributes.map Attribute.name =
        (n.properties.map (·.1.name)).filter fun name => name ∉ b.ignores := fun h =>
    map_name_propertyAttributes_eq_filter (attributes_eq_ok_iff.mp h).2
  refine ⟨fun _ _ => Node.bare_of_reaches_withBareMaps, n.elementType_withBareMaps,
    fun name => b.attributeNamed_withBareMaps name n, ?_,
    fun hmap => ⟨attributes_withBareMaps_of_isMap hmap, fun _ => hnames⟩⟩
  by_cases hmap : n.facts.isMap = true
  · rw [attributes_withBareMaps_of_isMap hmap]
    constructor
    · intro heq _ entry hentry
      have hnone := hnames heq.symm
      by_contra hkept
      have hmem : entry.1.name ∈ ([] : List Attribute).map Attribute.name := by
        rw [hnone]
        exact List.mem_filter.mpr ⟨List.mem_map_of_mem hentry, by simpa using hkept⟩
      cases hmem
    · intro hignored
      have hbare := attributes_withBareMaps_of_isMap (b := b) hmap
      rw [attributes_eq_ok_iff, Node.facts_withBareMaps,
        ← (Facts.agree_bare n.facts).kind_eq] at hbare
      exact (attributes_eq_ok_iff.mpr
        ⟨hbare.1, propertyAttributes_of_ignored (hignored hmap)⟩).symm
  · refine iff_of_true ?_ fun h => absurd h hmap
    have hfields := (b.buildsBare n).fields (mt Facts.form_eq_map_iff.mp hmap) ""
    unfold attributes
    rw [hfields, Node.facts_withBareMaps, ← (Facts.agree_bare n.facts).kind_eq]

/-- A map of integers that declares a fixed property. -/
def countsSchema : Schema :=
  .inline { type := some (.single .object) }
    { properties := [("id", .inline { type := some (.single .string) } {})]
      additional := some (.schema (.inline { type := some (.single .integer) } {})) }

/-- The fixed property of the map is the one attribute of it. -/
theorem fixedProperties_seen_countsSchema :
    ∃ n attributes, countsSchema.node = .ok n ∧ n.facts.isMap = true ∧
      n.properties.map (·.1.name) = ["id"] ∧
      Builder.attributes { flavor := .resource } n = .ok attributes ∧
      attributes.map Attribute.name = ["id"] := by
  obtain ⟨n, hn, hseen⟩ := exists_ok_of_toOption_map_eq_some
    (show countsSchema.node.toOption.map (fun n => (n.facts.isMap, n.properties.map (·.1.name),
      (Builder.attributes { flavor := .resource } n).toOption.map (List.map Attribute.name))) =
        some (true, ["id"], some ["id"]) by decide +kernel)
  obtain ⟨hmap, hproperties, hbuilt⟩ := by simpa only [Prod.mk.injEq] using hseen
  obtain ⟨attributes, hattributes, hnames⟩ := exists_ok_of_toOption_map_eq_some hbuilt
  exact ⟨n, attributes, hn, hmap, hproperties, hattributes, hnames⟩

end Builder

end ProviderSchema
