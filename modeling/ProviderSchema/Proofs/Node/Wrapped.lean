import ProviderSchema.Proofs.Node.DepthAgreement
import ProviderSchema.Proofs.Node.Rearranged
import ProviderSchema.Proofs.OpenApi.Replacement

/-!
# Wrappers

A schema may be the only member of `allOf`, or a member of a union of two whose
other member is `null`, and nothing else may be said about it there.  Such a
`Wrapper` can be put around a schema at any place of another one, and nothing of
what is built changes, but that the schemas below it are one step deeper
(`Schema.sameUnlessTooDeep_modifyAt_around`).  That may be one too many.

`Schema.Agree` is what is shown of the schema and of its replacement: at one
location they become branches that agree up to the depth, even if the replacement
stands further down.  It passes from the schemas in the same places on to those
that hold them (`Schema.agree_inline`), and every schema is in this relation to a
wrapper around it (`Schema.agree_around`).
-/

namespace ProviderSchema

open OpenApi

/-! ## Branches -/

/-- Both branches are `null`, or they are nodes that agree. -/
inductive Branch.Agree : Branch → Branch → Prop where
  | null : Agree .null .null
  | node {n n' : Node} (h : n.Agree n') : Agree (.node n) (.node n')

namespace Branch

variable {x x' y y' : Except SchemaError Branch}

theorem Agree.kind?_eq {a a' : Branch} (h : a.Agree a') : a.kind? = a'.kind? := by
  cases h with
  | null => rfl
  | node h => exact congrArg some h.facts.kind_eq

theorem Agree.describedBy {a a' : Branch} (h : a.Agree a') (description : Option String) :
    (a.describedBy description).Agree (a'.describedBy description) := by
  cases h with
  | null => exact .null
  | node h => exact .node (h.describedBy description)

theorem upToDepth_describedBy (h : UpToDepth Agree x x') (description : Option String) :
    UpToDepth Agree (x.map (describedBy description)) (x'.map (describedBy description)) :=
  h.map fun _ _ h => h.describedBy description

theorem upToDepth_toNode (h : UpToDepth Agree x x') :
    UpToDepth Node.Agree (x.bind toNode) (x'.bind toNode) := by
  refine h.bind fun a a' h => ?_
  cases h with
  | null => exact .error _
  | node h => exact .ok h

theorem ofPair_eq_bind (x y : Except SchemaError Branch) :
    ofPair x y = x.bind fun a => y.bind fun b =>
      (survivor a.kind? b.kind?).map (Side.pick a b) := by
  rcases x with _ | a
  · rfl
  · cases y <;> rfl

/-- The same member of a union survives. -/
theorem upToDepth_ofPair (hx : UpToDepth Agree x x') (hy : UpToDepth Agree y y') :
    UpToDepth Agree (ofPair x y) (ofPair x' y') := by
  rw [ofPair_eq_bind, ofPair_eq_bind]
  refine hx.bind fun a a' ha => hy.bind fun b b' hb => ?_
  rw [ha.kind?_eq, hb.kind?_eq]
  rcases survivor a'.kind? b'.kind? with e | _ | _
  · exact .error e
  · exact .ok ha
  · exact .ok hb

/-- As many members are not supported for the same reason. -/
theorem upToDepth_unsupported {l l' : List (Except SchemaError Branch)}
    (h : List.Forall₂ (UpToDepth Agree) l l') (keyword : String) :
    UpToDepth Agree (.error { fault := .compositionUnsupported l.length keyword })
      (.error { fault := .compositionUnsupported l'.length keyword }) := by
  rw [h.length_eq]
  exact .error _

/-- Compositions of branches that agree agree. -/
theorem upToDepth_ofComposition (description : Option String)
    {allOf allOf' anyOf anyOf' oneOf oneOf' : List (Except SchemaError Branch)}
    (hall : List.Forall₂ (UpToDepth Agree) allOf allOf')
    (hany : List.Forall₂ (UpToDepth Agree) anyOf anyOf')
    (hone : List.Forall₂ (UpToDepth Agree) oneOf oneOf') (hown : UpToDepth Agree x x') :
    UpToDepth Agree (ofComposition description allOf anyOf oneOf x)
      (ofComposition description allOf' anyOf' oneOf' x') := by
  have hpair {a a' b b' : Except SchemaError Branch} (ha : UpToDepth Agree a a')
      (hb : UpToDepth Agree b b') :=
    upToDepth_describedBy (upToDepth_ofPair ha hb) description
  have hmany := upToDepth_unsupported hall "allOf"
  have hmany' := upToDepth_unsupported hany "anyOf"
  have hmany'' := upToDepth_unsupported hone "oneOf"
  rcases hall with _ | ⟨hinner, _ | _⟩
  · rcases hany with _ | ⟨ha, _ | ⟨hb, _ | _⟩⟩
    · rcases hone with _ | ⟨ha, _ | ⟨hb, _ | _⟩⟩
      · exact hown
      · exact hmany''
      · exact hpair ha hb
      · exact hmany''
    · exact hmany'
    · cases hone with
      | nil => exact hpair ha hb
      | cons _ _ => exact hmany'
    · exact hmany'
  · cases hany with
    | nil =>
      cases hone with
      | nil => exact upToDepth_describedBy hinner description
      | cons _ _ => exact hmany
    | cons _ _ => exact hmany
  · exact hmany

end Branch

/-! ## Schemas -/

namespace OpenApi.Schema

/-- At one location the schemas become branches that agree up to the depth, even if
the second one stands further down. -/
def Agree (s s' : Schema) : Prop :=
  ∀ ⦃depth depth' : Nat⦄ (location : List String), depth ≤ depth' →
    UpToDepth Branch.Agree (branch depth location s) (branch depth' location s')

variable {c c' : Children Schema} {depth depth' : Nat}

theorem forall₂_branch {l l' : List Schema} (h : List.Forall₂ Agree l l')
    (hdepth : depth ≤ depth') (location : List String) :
    List.Forall₂ (UpToDepth Branch.Agree) (l.map (branch depth location))
      (l'.map (branch depth' location)) := by
  rw [List.forall₂_map_left_iff, List.forall₂_map_right_iff]
  exact h.imp fun _ _ hs => hs location hdepth

theorem forall₂_propertyNodes {t t' : List (String × Schema)}
    (h : List.Forall₂ (Table.SameKey Agree) t t') (hdepth : depth ≤ depth')
    (location : List String) :
    List.Forall₂ (Table.SameKey (UpToDepth Node.Agree)) (propertyNodes depth location t)
      (propertyNodes depth' location t') := by
  rw [propertyNodes_eq_map, propertyNodes_eq_map, List.forall₂_map_left_iff,
    List.forall₂_map_right_iff]
  refine h.imp fun _ _ hentry => ?_
  obtain ⟨name, hs⟩ := hentry
  exact .mk name (Branch.upToDepth_toNode (hs _ hdepth))

theorem upToDepth_itemNode (h : Option.Rel Agree (c.child? .items) (c'.child? .items))
    (hdepth : depth ≤ depth') (location : List String) :
    UpToDepth Node.Agree (itemNode depth location c.items) (itemNode depth' location c'.items) := by
  rw [itemNode_eq_elim, itemNode_eq_elim]
  generalize c.child? .items = s, c'.child? .items = s', h = hrel
  cases hrel with
  | none => exact .error _
  | some hs => exact Branch.upToDepth_toNode (hs _ hdepth)

theorem upToDepth_valueNode (h : Option.Rel Agree (c.child? .additional) (c'.child? .additional))
    (hdepth : depth ≤ depth') (location : List String) :
    UpToDepth Node.Agree (valueNode depth location c.additional)
      (valueNode depth' location c'.additional) := by
  rw [valueNode_eq_elim, valueNode_eq_elim]
  generalize c.child? .additional = s, c'.child? .additional = s', h = hrel
  cases hrel with
  | none => exact .error _
  | some hs => exact (Branch.upToDepth_toNode (hs _ hdepth)).mapError fun _ he => he.mapValueError

theorem agree_ownNode (h : Children.Related Agree c c') (hdepth : depth ≤ depth')
    (location : List String) (keywords : Keywords) (kind : SchemaKind) :
    (ownNode depth location keywords c kind).Agree (ownNode depth' location keywords c' kind) := by
  have hbelow : depth + 1 ≤ depth' + 1 := Nat.succ_le_succ hdepth
  have hsome : (c.child? .additional).isSome = (c'.child? .additional).isSome := by
    generalize c.child? .additional = s, c'.child? .additional = s', h.additional = hrel
    cases hrel <;> rfl
  refine .mk ⟨rfl, ?_⟩ (forall₂_arrange (forall₂_propertyNodes h.properties hbelow location))
    (upToDepth_itemNode h.items hbelow location) (upToDepth_valueNode h.additional hbelow location)
  rw [Facts.isMap_eq, Facts.isMap_eq]
  exact congrArg (decide (kind = .object) && ·) hsome

theorem upToDepth_ownBranch (h : Children.Related Agree c c') (hdepth : depth ≤ depth')
    (location : List String) (keywords : Keywords) :
    UpToDepth Branch.Agree (ownBranch depth location keywords c)
      (ownBranch depth' location keywords c') := by
  have hempty : c.properties.isEmpty = c'.properties.isEmpty := by
    generalize c.properties = t, c'.properties = t', h.properties = ht
    cases ht <;> rfl
  unfold ownBranch
  rw [hempty]
  rcases kindOf ((keywords.type.map TypeSet.types).getD []) !c'.properties.isEmpty with e | _ | kind
  · exact .error e
  · exact .ok .null
  · exact .ok (.node (agree_ownNode h hdepth location keywords kind))

/-- Schemas agree if they do as far as the second one is not too deep. -/
theorem agree_of_le {s s' : Schema}
    (h : ∀ depth depth' location, depth ≤ depth' → depth' ≤ maxSchemaDepth →
      UpToDepth Branch.Agree (branch depth location s) (branch depth' location s')) :
    Agree s s' := by
  intro depth depth' location hdepth
  rcases Nat.lt_or_ge maxSchemaDepth depth' with hdeep | hdeep
  · rw [branch_of_lt hdeep]
    exact .tooDeep _ rfl
  · exact h depth depth' location hdepth hdeep

/-- Schemas with the same keywords agree if they hold schemas that agree. -/
theorem agree_inline (keywords : Keywords) (h : Children.Related Agree c c') :
    Agree (.inline keywords c) (.inline keywords c') := by
  refine agree_of_le fun depth depth' location hdepth hdeep => ?_
  have hbelow : depth + 1 ≤ depth' + 1 := Nat.succ_le_succ hdepth
  rw [branch_inline (hdepth.trans hdeep), branch_inline hdeep]
  exact Branch.upToDepth_ofComposition keywords.description
    (forall₂_branch h.allOf hbelow _) (forall₂_branch h.anyOf hbelow _)
    (forall₂_branch h.oneOf hbelow _) (upToDepth_ownBranch h hdepth _ keywords)

/-- A schema that stands further down becomes the same, up to the depth. -/
theorem agree_self (s : Schema) : Agree s s := by
  induction s using Schema.inductionOnHeld with
  | reference target =>
    refine agree_of_le fun depth depth' location hdepth hdeep => ?_
    rw [branch, branch, if_neg (Nat.not_lt.mpr (hdepth.trans hdeep)),
      if_neg (Nat.not_lt.mpr hdeep)]
    exact .error _
  | inline keywords c ih => exact agree_inline keywords (Children.related_self ih)

/-- Schemas that agree have nodes that agree. -/
theorem Agree.node {s s' : Schema} (h : Agree s s') : UpToDepth Node.Agree s.node s'.node :=
  Branch.upToDepth_toNode (h [] le_rfl)

end OpenApi.Schema

/-! ## Wrappers -/

/-- A composition that says nothing about its only member that is not `null`.  In a
union, that is the first or the second of two members. -/
inductive Wrapper where
  | allOf
  | anyOf (side : Side)
  | oneOf (side : Side)
deriving DecidableEq, Repr

namespace Wrapper

/-- The schema of `null`. -/
def null : Schema := .inline { type := some (.single .null) } {}

/-- The members of a union of a schema, on one side, and `null`. -/
def members (s : Schema) : Side → List Schema
  | .first => [s, null]
  | .second => [null, s]

/-- The composition around a schema. -/
def around (w : Wrapper) (s : Schema) : Schema :=
  match w with
  | .allOf => .inline {} { allOf := [s] }
  | .anyOf side => .inline {} { anyOf := members s side }
  | .oneOf side => .inline {} { oneOf := members s side }

end Wrapper

theorem Branch.map_describedBy_none (x : Except SchemaError Branch) :
    x.map (describedBy none) = x := by
  rcases x with _ | _ | ⟨facts, properties, items, mapValue⟩ <;> rfl

namespace OpenApi.Schema

/-- Of a union with `null` its other member is left. -/
theorem ofPair_branch_null (depth : Nat) (location : List String) (s : Schema) :
    Branch.ofPair (branch depth location s) (branch depth location Wrapper.null) =
        branch depth location s ∧
      Branch.ofPair (branch depth location Wrapper.null) (branch depth location s) =
        branch depth location s := by
  rcases Nat.lt_or_ge maxSchemaDepth depth with hdeep | hdeep
  · rw [branch_of_lt hdeep, branch_of_lt hdeep]
    exact ⟨rfl, rfl⟩
  · have hnull : branch depth location Wrapper.null = .ok .null := by
      unfold Wrapper.null
      rw [branch_inline hdeep]
      rfl
    rw [hnull]
    rcases branch depth location s with _ | _ | _ <;> exact ⟨rfl, rfl⟩

/-- A wrapper becomes what the schema in it becomes one step further down. -/
theorem branch_around (w : Wrapper) (depth : Nat) (location : List String) (s : Schema) :
    branch depth location (w.around s) = branch (depth + 1) location s := by
  rcases Nat.lt_or_ge maxSchemaDepth depth with hdeep | hdeep
  · rw [branch_of_lt hdeep, branch_of_lt (Nat.lt_succ_of_lt hdeep)]
  · obtain ⟨hfirst, hsecond⟩ := ofPair_branch_null (depth + 1) location s
    unfold Wrapper.around
    rcases w with _ | (_ | _) | (_ | _) <;>
      refine (branch_inline hdeep location _ _).trans ((Branch.map_describedBy_none _).trans ?_)
    · rfl
    · exact hfirst
    · exact hsecond
    · exact hfirst
    · exact hsecond

theorem agree_around (w : Wrapper) (s : Schema) : Agree s (w.around s) := by
  intro depth depth' location hdepth
  rw [branch_around]
  exact agree_self s location (Nat.le_succ_of_le hdepth)

/-- A schema agrees with what becomes of it when a wrapper is put around a schema
anywhere in it. -/
theorem agree_modifyAt_around (w : Wrapper) (path : List Step) (s : Schema) :
    Agree s (s.modifyAt w.around path) :=
  rel_modifyAt agree_self (fun keywords => agree_inline keywords) (agree_around w) path s

/-- A wrapper around a schema, wherever that stands in another one, changes neither the
attributes that are built of the whole, nor its attribute with a name, nor its element
type, nor the error if there is one, unless a schema is nested too deeply then. -/
theorem sameUnlessTooDeep_modifyAt_around (w : Wrapper) (path : List Step) (s : Schema) :
    (∀ b : Builder, SameUnlessTooDeep (s.node.bind b.attributes)
        ((s.modifyAt w.around path).node.bind b.attributes)) ∧
      (∀ (b : Builder) (name : String) (c : Computability),
        SameUnlessTooDeep (s.node.bind fun n => b.attributeNamed name n c)
          ((s.modifyAt w.around path).node.bind fun n => b.attributeNamed name n c)) ∧
      SameUnlessTooDeep (s.node.bind Node.elementType)
        ((s.modifyAt w.around path).node.bind Node.elementType) := by
  have hnode := (agree_modifyAt_around w path s).node
  refine ⟨fun b => ?_, fun b name c => ?_, ?_⟩
  · exact (hnode.bind fun _ _ h => b.upToDepth_attributes h).sameUnlessTooDeep
  · exact (hnode.bind fun _ _ h => b.upToDepth_attributeNamed h name c).sameUnlessTooDeep
  · exact (hnode.bind fun _ _ h => h.elementType).sameUnlessTooDeep

end OpenApi.Schema

end ProviderSchema
