import ProviderSchema.Proofs.Node.Outline
import ProviderSchema.Proofs.OpenApi.Rearranged

/-!
# Nodes of rearranged schemas

Schemas that differ in the order of their properties only have nodes with the
same outline, or fail with the same error
(`Schema.Rearranged.map_outline_node`): properties are arranged, whatever the
order in which they are written, and everything else is left where it is.

`Schema.branch_inline` states what becomes of an inline schema in terms of
what becomes of the schemas that it holds.
-/

namespace ProviderSchema

open OpenApi

/-! ## Branches by composition -/

namespace Branch

/-- The outline of a branch. -/
def outline : Branch → Branch
  | .null => .null
  | .node n => .node n.outline

theorem kind?_outline (b : Branch) : b.outline.kind? = b.kind? := by
  cases b with
  | null => rfl
  | node n =>
    change some n.outline.facts.kind = some n.facts.kind
    rw [Node.facts_outline]
    rfl

theorem map_outline_describedBy (description : Option String) (b : Except SchemaError Branch) :
    (b.map (describedBy description)).map outline =
      (b.map outline).map (describedBy description) := by
  rcases b with e | _ | n
  · rfl
  · rfl
  · change Except.ok (Branch.node (n.describedBy description).outline) = _
    rw [Node.outline_describedBy]
    rfl

theorem map_outline_ofPair (a b : Except SchemaError Branch) :
    (ofPair a b).map outline = ofPair (a.map outline) (b.map outline) := by
  rcases a with e | a
  · rfl
  rcases b with e | b
  · rfl
  change ((survivor a.kind? b.kind?).map (Side.pick a b)).map outline =
    (survivor a.outline.kind? b.outline.kind?).map (Side.pick a.outline b.outline)
  rw [kind?_outline, kind?_outline]
  rcases survivor a.kind? b.kind? with e | _ | _ <;> rfl

theorem map_outline_toNode (b : Except SchemaError Branch) :
    (b.bind toNode).map Node.outline = (b.map outline).bind toNode := by
  rcases b with e | _ | n <;> rfl

/-- The branch of a schema from those of the schemas that it is composed of, or
its own if there are none. -/
def ofComposition (description : Option String)
    (allOf anyOf oneOf : List (Except SchemaError Branch))
    (own : Except SchemaError Branch) : Except SchemaError Branch :=
  match allOf, anyOf, oneOf with
  | [inner], [], [] => inner.map (describedBy description)
  | _ :: _, _, _ => .error { fault := .compositionUnsupported allOf.length "allOf" }
  | [], [a, b], [] => (ofPair a b).map (describedBy description)
  | [], _ :: _, _ => .error { fault := .compositionUnsupported anyOf.length "anyOf" }
  | [], [], [a, b] => (ofPair a b).map (describedBy description)
  | [], [], _ :: _ => .error { fault := .compositionUnsupported oneOf.length "oneOf" }
  | [], [], [] => own

/-- The outline of a composition is composed of outlines. -/
theorem map_outline_ofComposition (description : Option String)
    (allOf anyOf oneOf : List (Except SchemaError Branch)) (own : Except SchemaError Branch) :
    (ofComposition description allOf anyOf oneOf own).map outline =
      ofComposition description (allOf.map fun b => b.map outline)
        (anyOf.map fun b => b.map outline) (oneOf.map fun b => b.map outline)
        (own.map outline) := by
  have herror (e : SchemaError) : (Except.error e).map outline = .error e := rfl
  unfold ofComposition
  rcases allOf with _ | ⟨inner, _ | _⟩ <;> rcases anyOf with _ | ⟨a, _ | ⟨b, _ | _⟩⟩ <;>
    rcases oneOf with _ | ⟨c, _ | ⟨d, _ | _⟩⟩ <;>
      simp [map_outline_describedBy, map_outline_ofPair, herror]

end Branch

namespace OpenApi.Schema

/-- The branch of a schema that is not composed of others. -/
def ownBranch (depth : Nat) (location : List String) (keywords : Keywords)
    (c : Children Schema) : Except SchemaError Branch :=
  match kindOf ((keywords.type.map TypeSet.types).getD []) !c.properties.isEmpty with
  | .error e => .error e
  | .ok none => .ok .null
  | .ok (some kind) => .ok (.node (ownNode depth location keywords c kind))

/-- The branch of an inline schema that is not too deep. -/
theorem branch_inline {depth : Nat} (hdepth : depth ≤ maxSchemaDepth) (location : List String)
    (keywords : Keywords) (c : Children Schema) :
    branch depth location (.inline keywords c) =
      Branch.ofComposition keywords.description
        (c.allOf.map (branch (depth + 1) (keywords.location location)))
        (c.anyOf.map (branch (depth + 1) (keywords.location location)))
        (c.oneOf.map (branch (depth + 1) (keywords.location location)))
        (ownBranch depth (keywords.location location) keywords c) := by
  obtain ⟨properties, additional, items, allOf, oneOf, anyOf⟩ := c
  rw [branch, if_neg (Nat.not_lt.mpr hdepth)]
  unfold Branch.ofComposition
  rcases allOf with _ | ⟨inner, _ | _⟩ <;> rcases anyOf with _ | ⟨a, _ | ⟨b, _ | _⟩⟩ <;>
    rcases oneOf with _ | ⟨c, _ | ⟨d, _ | _⟩⟩ <;>
      first | rfl | simp

theorem branch_of_lt {depth : Nat} (hdepth : maxSchemaDepth < depth) (location : List String)
    (s : Schema) : branch depth location s = .error { fault := .tooDeep maxSchemaDepth } := by
  cases s with
  | reference target => rw [branch, if_pos hdepth]
  | inline keywords c =>
    obtain ⟨properties, additional, items, allOf, oneOf, anyOf⟩ := c
    rw [branch, if_pos hdepth]

/-- Schemas become branches with the same outline. -/
def SameOutline (s s' : Schema) : Prop :=
  ∀ depth location, (branch depth location s).map Branch.outline =
    (branch depth location s').map Branch.outline

end OpenApi.Schema

/-! ## The children -/

namespace OpenApi.Children

variable {c c' : Children Schema}

/-- There are children in the same places. -/
theorem SamePlaces.isSome_child?_eq {α : Type} {c c' : Children α} (h : c.SamePlaces c')
    (step : Step) : (c.child? step).isSome = (c'.child? step).isSome := by
  have hshape {c : Children α} (hstep : ∀ name, step ≠ .property name) :
      (c.child? step).isSome =
        (({ c.shape with properties := [] } : Children Unit).child? step).isSome := by
    obtain ⟨properties, additional, items, allOf, oneOf, anyOf⟩ := c
    cases step with
    | property name => exact absurd rfl (hstep name)
    | items => rcases items with _ | ⟨_ | _ | _⟩ <;> rfl
    | additional => rcases additional with _ | ⟨_ | _⟩ <;> rfl
    | allOf i => simp only [child?, shape, List.getElem?_map, Option.isSome_map]
    | oneOf i => simp only [child?, shape, List.getElem?_map, Option.isSome_map]
    | anyOf i => simp only [child?, shape, List.getElem?_map, Option.isSome_map]
    | tuple i =>
      rcases items with _ | ⟨_ | members | _⟩
      · rfl
      · rfl
      · simp only [child?, shape, Option.map_some, List.getElem?_map, Option.isSome_map]
      · rfl
  by_cases hstep : ∃ name, step = .property name
  · obtain ⟨name, rfl⟩ := hstep
    rw [Bool.eq_iff_iff]
    exact Table.isSome_get?_iff.trans (h.names.mem_iff.trans Table.isSome_get?_iff.symm)
  · rw [hshape (not_exists.mp hstep), hshape (not_exists.mp hstep), h.others]

/-- Children in the same places are related if those are that a step leads
to. -/
theorem SamePlaces.rel_child? {R : Schema → Schema → Prop} (h : c.SamePlaces c')
    (each : ∀ step s s', c.child? step = some s → c'.child? step = some s' → R s s')
    (step : Step) : Option.Rel R (c.child? step) (c'.child? step) := by
  have hsome := h.isSome_child?_eq step
  cases hs : c.child? step with
  | none =>
    rw [hs] at hsome
    rw [Option.isNone_iff_eq_none.mp (Option.isSome_eq_false_iff.mp hsome.symm)]
    exact .none
  | some s =>
    rw [hs] at hsome
    obtain ⟨s', hs'⟩ := Option.isSome_iff_exists.mp hsome.symm
    rw [hs']
    exact .some (each step s s' hs hs')

end OpenApi.Children

namespace OpenApi.Schema

variable {c c' : Children Schema}

/-- The schemas that a schema is composed of become branches with the same
outlines. -/
theorem map_outline_members {l l' : List Schema}
    (h : ∀ i : Nat, Option.Rel SameOutline l[i]? l'[i]?) (depth : Nat) (location : List String) :
    (l.map (branch depth location)).map (fun b => b.map Branch.outline) =
      (l'.map (branch depth location)).map fun b => b.map Branch.outline := by
  refine List.ext_getElem? fun i => ?_
  rw [List.getElem?_map, List.getElem?_map, List.getElem?_map, List.getElem?_map]
  generalize l[i]? = s, l'[i]? = s', h i = hrel
  cases hrel with
  | none => rfl
  | some hs => exact congrArg some (hs depth location)

/-- The node of the items, from the schema that a step leads to. -/
theorem itemNode_eq_elim (depth : Nat) (location : List String) (c : Children Schema) :
    itemNode depth location c.items =
      (c.child? .items).elim (.error { fault := .noItems }) fun s =>
        (branch depth (locationBelow location ["items"]) s).bind Branch.toNode := by
  obtain ⟨properties, additional, items, allOf, oneOf, anyOf⟩ := c
  rcases items with _ | ⟨_ | _ | s⟩ <;> rfl

/-- The node of the values of a map, from the schema that a step leads to. -/
theorem valueNode_eq_elim (depth : Nat) (location : List String) (c : Children Schema) :
    valueNode depth location c.additional =
      (c.child? .additional).elim (.error { fault := .noMapValue }) fun s =>
        ((branch depth (locationBelow location ["additionalProperties"]) s).bind
          Branch.toNode).mapError mapValueError := by
  obtain ⟨properties, additional, items, allOf, oneOf, anyOf⟩ := c
  rcases additional with _ | ⟨_ | s⟩ <;> rfl

theorem map_outline_itemNode (h : Option.Rel SameOutline (c.child? .items) (c'.child? .items))
    (depth : Nat) (location : List String) :
    (itemNode depth location c.items).map Node.outline =
      (itemNode depth location c'.items).map Node.outline := by
  rw [itemNode_eq_elim, itemNode_eq_elim]
  generalize c.child? .items = s, c'.child? .items = s', h = hrel
  cases hrel with
  | none => rfl
  | some hs =>
    rw [Option.elim_some, Option.elim_some, Branch.map_outline_toNode, Branch.map_outline_toNode,
      hs]

theorem map_outline_valueNode
    (h : Option.Rel SameOutline (c.child? .additional) (c'.child? .additional))
    (depth : Nat) (location : List String) :
    (valueNode depth location c.additional).map Node.outline =
      (valueNode depth location c'.additional).map Node.outline := by
  have hmapError (x : Except SchemaError Node) : (x.mapError mapValueError).map Node.outline =
      (x.map Node.outline).mapError mapValueError := by
    cases x <;> rfl
  rw [valueNode_eq_elim, valueNode_eq_elim]
  generalize c.child? .additional = s, c'.child? .additional = s', h = hrel
  cases hrel with
  | none => rfl
  | some hs =>
    rw [Option.elim_some, Option.elim_some, hmapError, hmapError, Branch.map_outline_toNode,
      Branch.map_outline_toNode, hs]

/-- The outline of the node of a property. -/
def propertyOutline (depth : Nat) (location : List String) (name : String) (s : Schema) :
    Except SchemaError Node :=
  ((branch depth (locationBelow location ["properties", name]) s).map Branch.outline).bind
    Branch.toNode

theorem map_outline_arrange_propertyNodes (depth : Nat) (location : List String)
    (properties : List (String × Schema)) :
    (arrange (propertyNodes depth location properties)).map
        (fun (p, n) => (p, n.map Node.outline)) =
      arrange (properties.map fun (name, s) => (name, propertyOutline depth location name s)) := by
  rw [← arrange_map, propertyNodes_eq_map, List.map_map]
  simp only [Function.comp_def, Branch.map_outline_toNode, propertyOutline]

/-- Properties are arranged alike, whatever their order. -/
theorem map_outline_arrange
    (h : Table.Rearranged SameOutline c.properties c'.properties) (depth : Nat)
    (location : List String) :
    (arrange (propertyNodes depth location c.properties)).map
        (fun (p, n) => (p, n.map Node.outline)) =
      (arrange (propertyNodes depth location c'.properties)).map
        fun (p, n) => (p, n.map Node.outline) := by
  have hvalue (name : String) (s s' : Schema) (hs : s.SameOutline s') :
      propertyOutline depth location name s = propertyOutline depth location name s' := by
    rw [propertyOutline, propertyOutline, hs]
  have hnodes := h.map (S := (· = ·)) hvalue
  rw [map_outline_arrange_propertyNodes, map_outline_arrange_propertyNodes,
    arrange_eq_of_perm hnodes.perm hnodes.distinct]

/-! ## Schemas -/

/-- Children in the same places have rearranged properties. -/
theorem rearranged_properties (places : c.SamePlaces c')
    (each : ∀ step, Option.Rel SameOutline (c.child? step) (c'.child? step)) :
    Table.Rearranged SameOutline c.properties c'.properties := by
  refine ⟨places.names, places.distinct, fun name s s' hs hs' => ?_⟩
  have hrel : Option.Rel SameOutline (Table.get? c.properties name)
      (Table.get? c'.properties name) := each (.property name)
  rw [hs, hs'] at hrel
  cases hrel
  assumption

theorem isEmpty_properties_eq (places : c.SamePlaces c') :
    c.properties.isEmpty = c'.properties.isEmpty := by
  have hlength := places.names.length_eq
  rw [List.length_map, List.length_map] at hlength
  rw [Bool.eq_iff_iff, List.isEmpty_iff_length_eq_zero, List.isEmpty_iff_length_eq_zero, hlength]

theorem outline_ownNode (places : c.SamePlaces c')
    (each : ∀ step, Option.Rel SameOutline (c.child? step) (c'.child? step)) (depth : Nat)
    (location : List String) (keywords : Keywords) (kind : SchemaKind) :
    (ownNode depth location keywords c kind).outline =
      (ownNode depth location keywords c' kind).outline := by
  have hfacts : Facts.outline ⟨kind, keywords, c, keywords.description, location, depth⟩ =
      Facts.outline ⟨kind, keywords, c', keywords.description, location, depth⟩ := by
    unfold Facts.outline
    rw [Facts.isMap_eq, Facts.isMap_eq, places.isSome_child?_eq .additional]
  rw [Node.outline_eq, Node.outline_eq (ownNode depth location keywords c' kind)]
  unfold ownNode Node.facts Node.properties Node.items Node.mapValue
  dsimp only
  rw [hfacts, map_outline_arrange (rearranged_properties places each),
    map_outline_itemNode (each .items), map_outline_valueNode (each .additional)]

theorem map_outline_ownBranch (places : c.SamePlaces c')
    (each : ∀ step, Option.Rel SameOutline (c.child? step) (c'.child? step)) (depth : Nat)
    (location : List String) (keywords : Keywords) :
    (ownBranch depth location keywords c).map Branch.outline =
      (ownBranch depth location keywords c').map Branch.outline := by
  unfold ownBranch
  rw [isEmpty_properties_eq places]
  cases kindOf ((keywords.type.map TypeSet.types).getD []) !c'.properties.isEmpty with
  | error e => rfl
  | ok kind =>
    cases kind with
    | none => rfl
    | some kind =>
      change Except.ok (Branch.node (ownNode depth location keywords c kind).outline) = _
      rw [outline_ownNode places each]
      rfl

/-- Rearranged schemas become branches with the same outline. -/
theorem Rearranged.sameOutline {s s' : Schema} (h : s.Rearranged s') : s.SameOutline s' := by
  induction h with
  | reference target =>
    intro depth location
    rfl
  | inline keywords places _ ih =>
    intro depth location
    have each := places.rel_child? ih
    by_cases hdepth : depth ≤ maxSchemaDepth
    · rw [branch_inline hdepth, branch_inline hdepth, Branch.map_outline_ofComposition,
        Branch.map_outline_ofComposition, map_outline_members fun i => each (.allOf i),
        map_outline_members fun i => each (.anyOf i), map_outline_members fun i => each (.oneOf i),
        map_outline_ownBranch places each]
    · rw [branch_of_lt (Nat.lt_of_not_le hdepth), branch_of_lt (Nat.lt_of_not_le hdepth)]

/-- Rearranged schemas have nodes with the same outline. -/
theorem Rearranged.map_outline_node {s s' : Schema} (h : s.Rearranged s') :
    s.node.map Node.outline = s'.node.map Node.outline := by
  unfold node
  rw [Branch.map_outline_toNode, Branch.map_outline_toNode, h.sameOutline]

/-- Rearranged schemas have no node for the same reason, or nodes with the
same outline. -/
theorem Rearranged.agreeUpTo_node {s s' : Schema} (h : s.Rearranged s') :
    AgreeUpTo (fun n n' => Node.outline n = Node.outline n') s.node s'.node := by
  have hnode := h.map_outline_node
  rcases hs : s.node with e | n <;> rcases hs' : s'.node with e' | n' <;> rw [hs, hs'] at hnode
  · cases hnode
    exact .error e
  · cases hnode
  · cases hnode
  · exact .ok (Except.ok.inj hnode)

end OpenApi.Schema

end ProviderSchema
