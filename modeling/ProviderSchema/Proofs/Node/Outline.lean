import ProviderSchema.Proofs.Node.Arranged
import ProviderSchema.Proofs.Node.Form
import ProviderSchema.Proofs.OpenApi.Step

/-!
# What is seen of a node

A node holds the child schemas that it was made of, but of these no builder
looks at more than whether there is a schema for the values of a map.
`Node.outline` leaves out the rest, at every depth, and whatever is built of a
node is built of its outline.  So schemas whose nodes have the same outline
become the same attributes.
-/

namespace ProviderSchema

open OpenApi

/-! ## Outlines -/

/-- The facts without the child schemas. -/
def Facts.outline (f : Facts) : Facts :=
  { f with children := if f.isMap then { additional := some (.schema (.reference "")) } else {} }

namespace Node

mutual

/-- The node without the child schemas that it was made of. -/
def outline : Node → Node
  | .mk facts properties items mapValue =>
    .mk facts.outline (outlineProperties properties)
      (match items with
        | .error e => .error e
        | .ok n => .ok (outline n))
      (match mapValue with
        | .error e => .error e
        | .ok n => .ok (outline n))

/-- Properties with the outlines of their nodes. -/
def outlineProperties :
    List (Property × Except SchemaError Node) → List (Property × Except SchemaError Node)
  | [] => []
  | (p, .error e) :: rest => (p, .error e) :: outlineProperties rest
  | (p, .ok n) :: rest => (p, .ok (outline n)) :: outlineProperties rest

end

theorem outlineProperties_eq_map (properties : List (Property × Except SchemaError Node)) :
    outlineProperties properties = properties.map fun (p, n) => (p, n.map outline) := by
  induction properties with
  | nil => rw [outlineProperties]; rfl
  | cons entry rest ih =>
    obtain ⟨p, _ | n⟩ := entry <;> rw [outlineProperties, ih] <;> rfl

theorem outline_eq (n : Node) :
    n.outline = .mk n.facts.outline (n.properties.map fun (p, m) => (p, m.map outline))
      (n.items.map outline) (n.mapValue.map outline) := by
  obtain ⟨facts, properties, items, mapValue⟩ := n
  rw [outline.eq_def]
  dsimp only
  rw [outlineProperties_eq_map]
  cases items <;> cases mapValue <;> rfl

theorem facts_outline (n : Node) : n.outline.facts = n.facts.outline := by
  rw [outline_eq]
  rfl

theorem properties_outline (n : Node) :
    n.outline.properties = n.properties.map fun (p, m) => (p, m.map outline) := by
  rw [outline_eq]
  rfl

theorem items_outline (n : Node) : n.outline.items = n.items.map outline := by
  rw [outline_eq]
  rfl

theorem mapValue_outline (n : Node) : n.outline.mapValue = n.mapValue.map outline := by
  rw [outline_eq]
  rfl

theorem outline_describedBy (description : Option String) (n : Node) :
    (n.describedBy description).outline = n.outline.describedBy description := by
  obtain ⟨facts, properties, items, mapValue⟩ := n
  rw [outline_eq (.mk facts properties items mapValue), outline_eq]
  cases description <;> rfl

end Node

/-- An object is a map if there is a schema for further values. -/
theorem Facts.isMap_eq (f : Facts) :
    f.isMap = (decide (f.kind = .object) && (f.children.child? .additional).isSome) := by
  unfold isMap Children.child?
  rcases f.children.additional with _ | _ | s <;> rfl

theorem Facts.isMap_outline (f : Facts) : f.outline.isMap = f.isMap := by
  by_cases h : f.isMap
  · have hkind : f.kind = .object := by
      unfold isMap at h
      rw [Bool.and_eq_true, decide_eq_true_eq] at h
      exact h.1
    unfold outline
    rw [if_pos h, h]
    simp [isMap, hkind]
  · unfold outline
    rw [if_neg h, Bool.eq_false_iff.mpr h]
    simp [isMap]

theorem Facts.form_outline (f : Facts) : f.outline.form = f.form := by
  unfold form
  rw [isMap_outline]
  rfl

/-! ## Building from outlines -/

namespace Node

/-- Fields keep their shapes if the nodes of the properties do. -/
theorem elementFields_map {f : Node → Node}
    {properties : List (Property × Except SchemaError Node)}
    (h : ∀ p child, (p, .ok child) ∈ properties → (f child).elementType = child.elementType) :
    elementFields (properties.map fun (p, m) => (p, m.map f)) = elementFields properties := by
  induction properties with
  | nil => rfl
  | cons entry rest ih =>
    have hrest := ih fun p child hmem => h p child (List.mem_cons_of_mem _ hmem)
    obtain ⟨p, e | child⟩ := entry
    · change elementFields ((p, .error e) :: rest.map _) = _
      rw [elementFields, elementFields]
    · change elementFields ((p, .ok (f child)) :: rest.map _) = _
      rw [elementFields, elementFields, h p child List.mem_cons_self, hrest]

theorem collectionType_map {f : Node → Node} (kind : CollectionKind)
    {member : Except SchemaError Node}
    (h : ∀ m, member = .ok m → (f m).elementType = m.elementType) :
    collectionType kind (member.map f) = collectionType kind member := by
  cases member with
  | error e => rfl
  | ok m =>
    change (f m).elementType.map _ = m.elementType.map _
    rw [h m rfl]

theorem elementType_outline (n : Node) : n.outline.elementType = n.elementType := by
  induction n using Node.inductionOnChildren with
  | mk n ihproperties ihitems ihvalue =>
    rw [elementType_eq, elementType_eq n, facts_outline, properties_outline, items_outline,
      mapValue_outline, Facts.form_outline, elementFields_map ihproperties,
      collectionType_map _ ihitems, collectionType_map _ ihvalue]
    rfl

end Node

namespace Builder

variable {b : Builder}

/-- Attributes stay as they are if those of the nodes of the properties do. -/
theorem propertyAttributes_map {f : Node → Node}
    {properties : List (Property × Except SchemaError Node)}
    (h : ∀ p child, (p, .ok child) ∈ properties →
      ∀ name c path, b.named name c path (f child) = b.named name c path child)
    (owner : Facts) (path : String) :
    b.propertyAttributes owner path (properties.map fun (p, m) => (p, m.map f)) =
      b.propertyAttributes owner path properties := by
  induction properties with
  | nil => rfl
  | cons entry rest ih =>
    have hrest := ih fun p child hmem => h p child (List.mem_cons_of_mem _ hmem)
    obtain ⟨p, e | child⟩ := entry
    · change b.propertyAttributes owner path ((p, .error e) :: rest.map _) = _
      rw [propertyAttributes, propertyAttributes, hrest]
    · change b.propertyAttributes owner path ((p, .ok (f child)) :: rest.map _) = _
      rw [propertyAttributes, propertyAttributes, h p child List.mem_cons_self, hrest]

/-- The same is built of a node and of its outline. -/
structure SeesOutline (b : Builder) (n : Node) : Prop where
  named : ∀ name c path, b.named name c path n.outline = b.named name c path n
  properties : ∀ owner path, b.propertyAttributes owner path n.outline.properties =
    b.propertyAttributes owner path n.properties

theorem propertyAttributes_outline_owner (owner : Facts) (path : String)
    (properties : List (Property × Except SchemaError Node)) :
    b.propertyAttributes owner.outline path properties =
      b.propertyAttributes owner path properties := by
  induction properties with
  | nil => rw [propertyAttributes, propertyAttributes]
  | cons entry rest ih =>
    obtain ⟨p, e | child⟩ := entry
    · rw [propertyAttributes, propertyAttributes, ih]
      rfl
    · rw [propertyAttributes, propertyAttributes, ih]
      rfl

theorem collected_outline (name : String) (traits : Traits) (kind : CollectionKind)
    (path : String) {member : Except SchemaError Node}
    (h : ∀ m, member = .ok m → b.SeesOutline m) :
    b.collected name traits kind path (member.map Node.outline) =
      b.collected name traits kind path member := by
  cases member with
  | error e => rfl
  | ok m =>
    change b.collected name traits kind path (.ok m.outline) = _
    unfold collected
    dsimp only
    rw [Node.facts_outline, Facts.form_outline, propertyAttributes_outline_owner,
      (h m rfl).properties, Node.elementType_outline]

theorem seesOutline (b : Builder) (n : Node) : b.SeesOutline n := by
  induction n using Node.inductionOnChildren with
  | mk n ihproperties ihitems ihvalue =>
    have hproperties (owner : Facts) (path : String) :
        b.propertyAttributes owner path n.outline.properties =
          b.propertyAttributes owner path n.properties := by
      rw [Node.properties_outline]
      exact propertyAttributes_map (fun p child hmem => (ihproperties p child hmem).named) owner
        path
    refine ⟨fun name c path => ?_, hproperties⟩
    rw [named_eq, named_eq b name c path n, Node.facts_outline, Node.items_outline,
      Node.mapValue_outline, Facts.form_outline, propertyAttributes_outline_owner, hproperties,
      collected_outline _ _ _ _ ihitems, collected_outline _ _ _ _ ihvalue]
    rfl

/-- Nodes with the same outline become the same attributes. -/
theorem attributes_congr (b : Builder) {n n' : Node} (h : n.outline = n'.outline) :
    b.attributes n = b.attributes n' := by
  have heq (n : Node) : b.attributes n.outline = b.attributes n := by
    unfold attributes
    rw [Node.facts_outline, propertyAttributes_outline_owner, (b.seesOutline n).properties]
    rfl
  rw [← heq n, h, heq]

theorem attributeNamed_congr (b : Builder) {n n' : Node} (h : n.outline = n'.outline)
    (name : String) (c : Computability) :
    b.attributeNamed name n c = b.attributeNamed name n' c := by
  unfold attributeNamed
  rw [← (b.seesOutline n).named, h, (b.seesOutline n').named]

end Builder

end ProviderSchema
