import ProviderSchema.Node.Attributes
import ProviderSchema.Proofs.Document.Except

/-!
# The form of a node

A node is a scalar, an array, a map or a record.  The compilers of nodes
distinguish no more than that, and `Facts.form` says which it is.  The two
equations `Node.elementType_eq` and `Builder.named_eq` restate them by form:
one case for each form, with arrays and maps made of their member by the same
function.  Proofs about the compilers start from these equations, and from those
that say what is made of a member and of the first of several properties
(`Node.elementFields_cons`, `Builder.propertyAttributes_cons_of_notMem`).  Where arrays and
maps need not be told apart, `Node.content` gives the member with the kind of collection.

`Node.inductionOnChildren` is the induction that passes from the children of a
node on to the node.
-/

namespace ProviderSchema

/-- The form of a node. -/
inductive NodeForm where
  | scalar (kind : ScalarKind)
  | array
  | map
  | record
deriving DecidableEq, Repr

/-- The form of the node that the facts are known of. -/
def Facts.form (f : Facts) : NodeForm :=
  match f.kind with
  | .boolean => .scalar .bool
  | .integer => .scalar .int64
  | .string => .scalar .string
  | .number => .scalar f.numberKind
  | .array => .array
  | .object => if f.isMap then .map else .record

theorem Facts.form_eq_record_iff {f : Facts} : f.form = .record ↔ f.isRecord = true := by
  unfold form isRecord
  cases f.kind <;> simp

namespace Node

/-- What passes from the children of a node on to the node holds of all
nodes.  Children for which there is an error instead of a node do not count. -/
theorem inductionOnChildren {motive : Node → Prop}
    (mk : ∀ n : Node,
      (∀ p child, (p, .ok child) ∈ n.properties → motive child) →
      (∀ child, n.items = .ok child → motive child) →
      (∀ child, n.mapValue = .ok child → motive child) → motive n) :
    ∀ n, motive n
  | .mk facts properties items mapValue =>
    mk (.mk facts properties items mapValue)
      (fun _ child _ => inductionOnChildren mk child)
      (fun child _ => inductionOnChildren mk child)
      (fun child _ => inductionOnChildren mk child)
termination_by n => sizeOf n
decreasing_by
  · rename_i hmem
    have hlt := List.sizeOf_lt_of_mem hmem
    rw [Prod.mk.sizeOf_spec, Except.ok.sizeOf_spec] at hlt
    rw [Node.mk.sizeOf_spec]
    simp only [Node.properties] at hlt
    omega
  · rename_i hitems
    simp only [Node.items] at hitems
    rw [Node.mk.sizeOf_spec, hitems, Except.ok.sizeOf_spec]
    omega
  · rename_i hvalue
    simp only [Node.mapValue] at hvalue
    rw [Node.mk.sizeOf_spec, hvalue, Except.ok.sizeOf_spec]
    omega

/-- The shape of a collection whose members are described by a node. -/
def collectionType (kind : CollectionKind) :
    Except SchemaError Node → Except SchemaError ElementType
  | .error e => .error e
  | .ok member => member.elementType.map (.collection kind)

theorem collectionType_eq_bind (kind : CollectionKind) (member : Except SchemaError Node) :
    collectionType kind member = member.bind fun m => m.elementType.map (.collection kind) := by
  cases member <;> rfl

/-- The shape of the values of a node, by the form of the node. -/
theorem elementType_eq (n : Node) :
    n.elementType =
      match n.facts.form with
      | .scalar kind => .ok (.scalar kind)
      | .array => collectionType n.facts.collectionKind n.items
      | .map => collectionType .map n.mapValue
      | .record => (elementFields n.properties).map .object := by
  obtain ⟨facts, properties, items, mapValue⟩ := n
  rw [elementType.eq_def]
  simp only [Node.facts, Node.properties, Node.items, Node.mapValue, Facts.form]
  cases hkind : facts.kind with
  | object =>
    by_cases hmap : facts.isMap
    · simp only [hmap, if_true]
      cases mapValue <;> rfl
    · simp only [hmap, if_false, Bool.false_eq_true]
  | array => cases items <;> rfl
  | _ => rfl

/-- What the values of a node consist of. -/
inductive Content where
  | scalar (kind : ScalarKind)
  | members (kind : CollectionKind) (member : Except SchemaError Node)
  | record

/-- What a node holds, by its form. -/
def content (n : Node) : Content :=
  match n.facts.form with
  | .scalar kind => .scalar kind
  | .array => .members n.facts.collectionKind n.items
  | .map => .members .map n.mapValue
  | .record => .record

theorem content_eq_record_iff {n : Node} : n.content = .record ↔ n.facts.form = .record := by
  unfold content
  cases n.facts.form <;> simp

theorem content_eq_members_iff {n : Node} {kind : CollectionKind}
    {member : Except SchemaError Node} :
    n.content = .members kind member ↔
      (n.facts.form = .array ∧ n.facts.collectionKind = kind ∧ n.items = member) ∨
        (n.facts.form = .map ∧ .map = kind ∧ n.mapValue = member) := by
  unfold content
  cases n.facts.form <;> simp

/-- The shape of the values of a node, by what they consist of. -/
theorem elementType_eq_content (n : Node) :
    n.elementType =
      match n.content with
      | .scalar kind => .ok (.scalar kind)
      | .members kind member => collectionType kind member
      | .record => (elementFields n.properties).map .object := by
  rw [elementType_eq, content]
  cases n.facts.form <;> rfl

/-- An object has a field for each property, up to the first one without a shape. -/
theorem elementFields_cons (p : Property) (child : Except SchemaError Node)
    (rest : List (Property × Except SchemaError Node)) :
    elementFields ((p, child) :: rest) =
      ((child.bind elementType).mapError (SchemaError.inProperty p.name)).bind fun type =>
        (elementFields rest).map ((p.name, type) :: ·) := by
  cases child with
  | error e =>
    rw [elementFields]
    rfl
  | ok child =>
    rw [elementFields]
    change _ = (child.elementType.mapError _).bind _
    cases child.elementType <;> rfl

end Node

namespace Builder

/-- The attribute of a collection whose members are described by a node.
Members that are records have attributes of their own. -/
def collected (b : Builder) (name : String) (traits : Traits) (kind : CollectionKind)
    (path : String) : Except SchemaError Node → Except SchemaError Attribute
  | .error e => .error e
  | .ok member =>
    if member.facts.form = .record then
      (b.propertyAttributes member.facts path member.properties).map (.nested name traits kind)
    else member.elementType.map (.collection name traits kind)

theorem collected_eq_bind (b : Builder) (name : String) (traits : Traits) (kind : CollectionKind)
    (path : String) (member : Except SchemaError Node) :
    b.collected name traits kind path member = member.bind fun m =>
      if m.facts.form = .record then
        (b.propertyAttributes m.facts path m.properties).map (.nested name traits kind)
      else m.elementType.map (.collection name traits kind) := by
  cases member <;> rfl

/-- The attribute of a node, by the form of the node. -/
theorem named_eq (b : Builder) (name : String) (c : Computability) (path : String)
    (n : Node) :
    b.named name c path n =
      match n.facts.form with
      | .scalar kind => .ok (b.scalar name n.facts c kind)
      | .array =>
        b.collected name (b.collectionTraits n.facts c n.facts.collectionKind)
          n.facts.collectionKind path n.items
      | .map => b.collected name (b.collectionTraits n.facts c .map) .map path n.mapValue
      | .record =>
        (b.propertyAttributes n.facts path n.properties).map
          (.single name (b.traits n.facts c)) := by
  obtain ⟨facts, properties, items, mapValue⟩ := n
  rw [named]
  simp only [Node.facts, Node.properties, Node.items, Node.mapValue, Facts.form]
  cases hkind : facts.kind with
  | object =>
    by_cases hmap : facts.isMap
    · simp only [hmap, if_true]
      rcases mapValue with _ | ⟨inner, fields, a, v⟩
      · rfl
      · simp [collected, Facts.form_eq_record_iff, Node.facts, Node.properties]
    · simp only [hmap, if_false, Bool.false_eq_true]
  | array =>
    rcases items with _ | ⟨inner, fields, a, v⟩
    · rfl
    · simp [collected, Facts.form_eq_record_iff, Node.facts, Node.properties]
  | _ => rfl

/-- The attribute of a node, by what its values consist of. -/
theorem named_eq_content (b : Builder) (name : String) (c : Computability) (path : String)
    (n : Node) :
    b.named name c path n =
      match n.content with
      | .scalar kind => .ok (b.scalar name n.facts c kind)
      | .members kind member =>
        b.collected name (b.collectionTraits n.facts c kind) kind path member
      | .record =>
        (b.propertyAttributes n.facts path n.properties).map
          (.single name (b.traits n.facts c)) := by
  rw [named_eq, Node.content]
  cases n.facts.form <;> rfl

/-- A property that is not ignored has an attribute, or the error at it is passed on. -/
theorem propertyAttributes_cons_of_notMem {b : Builder} {owner : Facts} {path : String}
    {p : Property} (h : below path p.name ∉ b.ignores) (child : Except SchemaError Node)
    (rest : List (Property × Except SchemaError Node)) :
    b.propertyAttributes owner path ((p, child) :: rest) =
      ((child.bind (b.named p.name (b.computabilityOf owner p) (below path p.name))).mapError
        (b.errorAt owner p)).bind fun built =>
          (b.propertyAttributes owner path rest).map (built :: ·) := by
  cases child with
  | error e =>
    rw [propertyAttributes, if_neg (by simpa using h)]
    rfl
  | ok child =>
    rw [propertyAttributes, if_neg (by simpa using h)]
    change _ = ((b.named p.name _ _ child).mapError _).bind _
    cases b.named p.name (b.computabilityOf owner p) (below path p.name) child <;> rfl

/-- What a collection is built of, if it is built. -/
theorem collected_eq_ok_iff {b : Builder} {name path : String} {traits : Traits}
    {kind : CollectionKind} {member : Except SchemaError Node} {a : Attribute} :
    b.collected name traits kind path member = .ok a ↔
      ∃ m, member = .ok m ∧
        ((m.facts.form = .record ∧ ∃ attributes,
            b.propertyAttributes m.facts path m.properties = .ok attributes ∧
              .nested name traits kind attributes = a) ∨
          (m.facts.form ≠ .record ∧ ∃ element,
            m.elementType = .ok element ∧ .collection name traits kind element = a)) := by
  cases member with
  | error e => simp [collected]
  | ok m =>
    by_cases hform : m.facts.form = .record
    · cases hfields : b.propertyAttributes m.facts path m.properties <;>
        simp [collected, hform, hfields, Except.map]
    · cases helement : m.elementType <;>
        simp [collected, hform, helement, Except.map]

/-- An attribute has the name that it was built for. -/
theorem named_name {b : Builder} {name path : String} {c : Computability} {n : Node}
    {a : Attribute} (h : b.named name c path n = .ok a) : a.name = name := by
  have hcollected {traits kind member}
      (h : b.collected name traits kind path member = .ok a) : a.name = name := by
    obtain ⟨m, -, ⟨-, _, -, rfl⟩ | ⟨-, _, -, rfl⟩⟩ := collected_eq_ok_iff.mp h <;> rfl
  rw [named_eq] at h
  split at h
  · cases h
    rfl
  · exact hcollected h
  · exact hcollected h
  · obtain ⟨attributes, -, rfl⟩ := map_eq_ok_iff.mp h
    rfl

/-- Only objects have attributes. -/
theorem attributes_eq_ok_iff {b : Builder} {n : Node} {attributes : List Attribute} :
    b.attributes n = .ok attributes ↔
      n.facts.kind = .object ∧ b.propertyAttributes n.facts "" n.properties = .ok attributes := by
  unfold Builder.attributes
  split
  · rename_i hkind
    exact ⟨fun h => ⟨hkind, h⟩, And.right⟩
  · rename_i hkind
    exact ⟨fun h => (by cases h), fun h => absurd h.1 hkind⟩

end Builder

end ProviderSchema
