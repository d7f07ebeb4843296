import ProviderSchema.Node.Resolution
import ProviderSchema.Proofs.Node.Arrangement
import ProviderSchema.Proofs.OpenApi.Children

/-!
# The nodes of schemas

The node that a schema stands for is either that of a composed schema, with
another description, or that of the schema itself (`branch_inline_inversion`).
In both cases it is `Node.Arranged`: the properties of the node, and of every
node below it, are those of its schema, arranged.

The proof goes from the schemas that a schema holds on to the schema.  The
induction `Schema.inductionOnHeld` passes over all properties, those with a
repeated name included, because `propertyNodes` does so.
-/

namespace ProviderSchema

open OpenApi

theorem Node.describedBy_none (n : Node) : n.describedBy none = n := by
  cases n
  rfl

/-! ## What a branch can be -/

namespace Branch

theorem bind_toNode_eq_ok_iff {branch : Except SchemaError Branch} {n : Node} :
    branch.bind toNode = .ok n ↔ branch = .ok (.node n) := by
  rcases branch with e | _ | m <;> simp [Except.bind, toNode]

/-- What survives of a union is one of its members. -/
theorem eq_or_eq_of_ofPair_eq_ok {first second : Except SchemaError Branch} {b : Branch}
    (h : ofPair first second = .ok b) : first = .ok b ∨ second = .ok b := by
  unfold ofPair at h
  cases first with
  | error e => cases h
  | ok a =>
    cases second with
    | error e => cases h
    | ok a' =>
      dsimp only at h
      cases hside : survivor a.kind? a'.kind? with
      | error e =>
        rw [hside] at h
        cases h
      | ok side =>
        rw [hside] at h
        cases side <;> cases h <;> simp [Side.pick]

theorem map_describedBy_eq_ok_node {branch : Except SchemaError Branch}
    {description : Option String} {n : Node}
    (h : branch.map (describedBy description) = .ok (.node n)) :
    ∃ m, branch = .ok (.node m) ∧ n = m.describedBy description := by
  rcases branch with e | _ | m
  · cases h
  · cases h
  · cases h
    exact ⟨m, rfl, rfl⟩

end Branch

namespace OpenApi.Schema

/-- The node of the items of an array at a location. -/
def itemNode (depth : Nat) (location : List String) :
    Option (Items Schema) → Except SchemaError Node
  | some (.schema s) => (branch depth (locationBelow location ["items"]) s).bind Branch.toNode
  | _ => .error { fault := .noItems }

/-- The node of the values of a map at a location. -/
def valueNode (depth : Nat) (location : List String) :
    Option (Additional Schema) → Except SchemaError Node
  | some (.schema s) =>
    ((branch depth (locationBelow location ["additionalProperties"]) s).bind
      Branch.toNode).mapError mapValueError
  | _ => .error { fault := .noMapValue }

/-- The node of a schema that is not composed of others. -/
def ownNode (depth : Nat) (location : List String) (keywords : Keywords) (c : Children Schema)
    (kind : SchemaKind) : Node :=
  .mk ⟨kind, keywords, c, keywords.description, location, depth⟩
    (arrange (propertyNodes (depth + 1) location c.properties))
    (itemNode (depth + 1) location c.items) (valueNode (depth + 1) location c.additional)

/-- The node of an inline schema is that of a schema it is composed of, with
its own description if it has one, or it is a node of its own. -/
theorem branch_inline_inversion {depth : Nat} {location : List String} {keywords : Keywords}
    {c : Children Schema} {n : Node}
    (h : branch depth location (.inline keywords c) = .ok (.node n)) :
    depth ≤ maxSchemaDepth ∧
      ((∃ s ∈ c.allOf ++ c.anyOf ++ c.oneOf, ∃ m,
          branch (depth + 1) (keywords.location location) s = .ok (.node m) ∧
            n = m.describedBy keywords.description) ∨
        (c.allOf ++ c.anyOf ++ c.oneOf = [] ∧ ∃ kind,
          kindOf ((keywords.type.map TypeSet.types).getD []) (!c.properties.isEmpty) =
              .ok (some kind) ∧
            n = ownNode depth (keywords.location location) keywords c kind)) := by
  obtain ⟨properties, additional, items, allOf, oneOf, anyOf⟩ := c
  rw [branch] at h
  split at h
  · cases h
  rename_i hdepth
  refine ⟨Nat.le_of_not_lt hdepth, ?_⟩
  have hpair {a b : Schema} (h : (Branch.ofPair
      (branch (depth + 1) (keywords.location location) a)
      (branch (depth + 1) (keywords.location location) b)).map
        (Branch.describedBy keywords.description) = .ok (.node n)) :
      ∃ s ∈ [a, b], ∃ m, branch (depth + 1) (keywords.location location) s = .ok (.node m) ∧
        n = m.describedBy keywords.description := by
    obtain ⟨m, hm, rfl⟩ := Branch.map_describedBy_eq_ok_node h
    rcases Branch.eq_or_eq_of_ofPair_eq_ok hm with ha | hb
    · exact ⟨a, by simp, m, ha, rfl⟩
    · exact ⟨b, by simp, m, hb, rfl⟩
  dsimp only at h
  split at h
  · rename_i inner
    obtain ⟨m, hm, rfl⟩ := Branch.map_describedBy_eq_ok_node h
    exact .inl ⟨inner, by simp, m, hm, rfl⟩
  · cases h
  · exact .inl (by simpa using hpair h)
  · cases h
  · exact .inl (by simpa using hpair h)
  · cases h
  · refine .inr ⟨rfl, ?_⟩
    split at h
    · cases h
    · cases h
    · rename_i kind hkind
      cases h
      refine ⟨kind, hkind, ?_⟩
      rfl

theorem itemNode_eq_ok {depth : Nat} {location : List String} {items : Option (Items Schema)}
    {n : Node} (h : itemNode depth location items = .ok n) :
    ∃ s, items = some (.schema s) ∧
      branch depth (locationBelow location ["items"]) s = .ok (.node n) := by
  unfold itemNode at h
  split at h
  · rename_i s
    exact ⟨s, rfl, Branch.bind_toNode_eq_ok_iff.mp h⟩
  · cases h

theorem valueNode_eq_ok {depth : Nat} {location : List String}
    {additional : Option (Additional Schema)} {n : Node}
    (h : valueNode depth location additional = .ok n) :
    ∃ s, additional = some (.schema s) ∧
      branch depth (locationBelow location ["additionalProperties"]) s = .ok (.node n) := by
  unfold valueNode at h
  split at h
  · rename_i s
    refine ⟨s, rfl, Branch.bind_toNode_eq_ok_iff.mp ?_⟩
    cases hbranch : (branch depth (locationBelow location ["additionalProperties"]) s).bind
      Branch.toNode with
    | error e =>
      rw [hbranch] at h
      cases h
    | ok m =>
      rw [hbranch] at h
      exact h
  · cases h

theorem propertyNodes_eq_map (depth : Nat) (location : List String)
    (properties : List (String × Schema)) :
    propertyNodes depth location properties =
      properties.map fun entry =>
        (entry.1, (branch depth (locationBelow location ["properties", entry.1]) entry.2).bind
          Branch.toNode) := by
  induction properties with
  | nil => rfl
  | cons entry rest ih => rw [propertyNodes, ih, List.map_cons]

end OpenApi.Schema

namespace OpenApi.Schema

/-- What passes from the nodes of the schemas that a schema holds on to its own node, and
does not depend on the description, holds of all nodes that schemas stand for. -/
theorem forall_of_branch_eq_ok {P : Node → Prop}
    (hdescribed : ∀ n, P n → ∀ description, P (n.describedBy description))
    (hown : ∀ c : Children Schema,
      (∀ s, c.Holds s → ∀ depth location n, branch depth location s = .ok (.node n) → P n) →
        ∀ depth location keywords kind, P (ownNode depth location keywords c kind))
    (s : Schema) : ∀ (depth : Nat) (location : List String) (n : Node),
      branch depth location s = .ok (.node n) → P n := by
  induction s using Schema.inductionOnHeld with
  | reference target =>
    intro depth location n h
    rw [branch] at h
    split at h <;> cases h
  | inline keywords c ih =>
    intro depth location n h
    obtain ⟨-, ⟨s, hs, m, hm, rfl⟩ | ⟨-, kind, -, rfl⟩⟩ := branch_inline_inversion h
    · exact hdescribed m (ih s (.composed hs) _ _ m hm) keywords.description
    · exact hown c ih depth _ keywords kind

end OpenApi.Schema

/-! ## Arranged nodes -/

/-- The properties of a node, and of all nodes below it, are those of its
schema, arranged. -/
inductive Node.Arranged : Node → Prop where
  | mk {n : Node}
      (properties : n.properties = arrange (Schema.propertyNodes (n.facts.depth + 1)
        n.facts.location n.facts.children.properties))
      (each : ∀ p child, (p, .ok child) ∈ n.properties → child.Arranged)
      (items : ∀ child, n.items = .ok child → child.Arranged)
      (mapValue : ∀ child, n.mapValue = .ok child → child.Arranged) : Arranged n

/-- The properties of an arranged node ascend strictly by name. -/
theorem Node.Arranged.pairwise_name {n : Node} (h : n.Arranged) :
    (n.properties.map (·.1.name)).Pairwise (· < ·) := by
  obtain ⟨harranged, -, -, -⟩ := h
  rw [harranged]
  exact pairwise_name_arrange _

theorem Node.Arranged.describedBy {n : Node} (h : n.Arranged) (description : Option String) :
    (n.describedBy description).Arranged := by
  obtain ⟨facts, properties, items, mapValue⟩ := n
  obtain ⟨harranged, each, hitems, hvalue⟩ := h
  cases description with
  | none => exact ⟨harranged, each, hitems, hvalue⟩
  | some d => exact ⟨harranged, each, hitems, hvalue⟩

namespace OpenApi.Schema

theorem mem_propertyNodes {depth : Nat} {location : List String}
    {properties : List (String × Schema)} {name : String} {n : Node}
    (h : (name, .ok n) ∈ propertyNodes depth location properties) :
    ∃ s, (name, s) ∈ properties ∧
      branch depth (locationBelow location ["properties", name]) s = .ok (.node n) := by
  rw [propertyNodes_eq_map, List.mem_map] at h
  obtain ⟨⟨name', s⟩, hentry, heq⟩ := h
  obtain ⟨rfl, hbranch⟩ := Prod.mk.inj heq
  exact ⟨s, hentry, Branch.bind_toNode_eq_ok_iff.mp hbranch⟩

/-- A node of its own is arranged if the nodes of the schemas below it are. -/
theorem arranged_ownNode {c : Children Schema}
    (h : ∀ s, c.Holds s → ∀ depth location n,
      branch depth location s = .ok (.node n) → n.Arranged)
    (depth : Nat) (location : List String) (keywords : Keywords) (kind : SchemaKind) :
    (ownNode depth location keywords c kind).Arranged := by
  refine .mk rfl ?_ ?_ ?_
  · intro p child hchild
    obtain ⟨s, hs, hbranch⟩ := mem_propertyNodes (mem_of_mem_arrange hchild).2
    exact h s (.property _ hs) _ _ _ hbranch
  · intro child hchild
    obtain ⟨s, hs, hbranch⟩ := itemNode_eq_ok hchild
    exact h s (.items hs) _ _ _ hbranch
  · intro child hchild
    obtain ⟨s, hs, hbranch⟩ := valueNode_eq_ok hchild
    exact h s (.additional hs) _ _ _ hbranch

/-- The node that a schema stands for is arranged. -/
theorem arranged_of_branch_eq_ok (s : Schema) : ∀ (depth : Nat) (location : List String) (n : Node),
    branch depth location s = .ok (.node n) → n.Arranged :=
  forall_of_branch_eq_ok (fun _ h => h.describedBy) (fun _ => arranged_ownNode) s

/-- The node of a root schema is arranged. -/
theorem arranged_of_node_eq_ok {s : Schema} {n : Node} (h : s.node = .ok n) : n.Arranged :=
  arranged_of_branch_eq_ok s 0 [] n (Branch.bind_toNode_eq_ok_iff.mp h)

end OpenApi.Schema

end ProviderSchema
