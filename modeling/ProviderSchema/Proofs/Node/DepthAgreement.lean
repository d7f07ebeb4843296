import ProviderSchema.Proofs.Document.Table
import ProviderSchema.Proofs.Node.BuiltNames

/-!
# Nodes that agree up to the depth

How deep a schema may be nested is limited, so a schema that stands one step further
down may be too deep where it was not before.  `UpToDepth` relates computations with
the same outcome, or related ones, but for that the second may fail because a schema
is too deep; with equality for the relation, this is `SameUnlessTooDeep`.

`Node.Agree` relates nodes whose facts are the same, child schemas and depth apart,
and whose children agree up to the depth.  Whatever is built of such nodes agrees up
to the depth as well: element types (`Node.Agree.elementType`) and attributes
(`Builder.upToDepth_attributes` and `Builder.upToDepth_attributeNamed`).  The proofs
are by `Node.Agree.inductionOnChildren`, with one step for each form of a node.
-/

namespace ProviderSchema

open OpenApi

variable {α β γ δ : Type}

/-! ## Outcomes -/

/-- Whether an error says that a schema is nested too deeply. -/
def SchemaError.IsTooDeep (e : SchemaError) : Prop := e.fault = .tooDeep maxSchemaDepth

namespace SchemaError.IsTooDeep

variable {e : SchemaError}

theorem inProperty (h : e.IsTooDeep) (name : String) : (e.inProperty name).IsTooDeep := h

theorem errorAt (h : e.IsTooDeep) (b : Builder) (owner : Facts) (p : Property) :
    (b.errorAt owner p e).IsTooDeep := h

theorem mapValueError (h : e.IsTooDeep) : (ProviderSchema.mapValueError e).IsTooDeep := by
  unfold ProviderSchema.mapValueError
  rw [h]
  exact h

end SchemaError.IsTooDeep

/-- The second computation fails because a schema is nested too deeply, or both
fail with the same error, or both succeed with related results. -/
inductive UpToDepth (R : α → β → Prop) : Except SchemaError α → Except SchemaError β → Prop where
  | ok {a : α} {b : β} (h : R a b) : UpToDepth R (.ok a) (.ok b)
  | error (e : SchemaError) : UpToDepth R (.error e) (.error e)
  | tooDeep (x : Except SchemaError α) {e : SchemaError} (h : e.IsTooDeep) :
      UpToDepth R x (.error e)

/-- The second computation has the outcome of the first one, unless it fails because a
schema is nested too deeply. -/
def SameUnlessTooDeep (x y : Except SchemaError α) : Prop :=
  y = x ∨ ∃ e : SchemaError, y = .error e ∧ e.IsTooDeep

namespace UpToDepth

variable {R : α → β → Prop} {S : γ → δ → Prop} {x : Except SchemaError α}
  {y : Except SchemaError β}

theorem sameUnlessTooDeep {x y : Except SchemaError α} (h : UpToDepth Eq x y) :
    SameUnlessTooDeep x y := by
  cases h with
  | ok h => exact .inl (congrArg Except.ok h.symm)
  | error e => exact .inl rfl
  | @tooDeep _ e h => exact .inr ⟨e, rfl, h⟩

theorem bind {f : α → Except SchemaError γ} {g : β → Except SchemaError δ} (h : UpToDepth R x y)
    (hfg : ∀ a b, R a b → UpToDepth S (f a) (g b)) : UpToDepth S (x.bind f) (y.bind g) := by
  cases h with
  | ok h => exact hfg _ _ h
  | error e => exact .error e
  | tooDeep x h => exact .tooDeep _ h

theorem map {f : α → γ} {g : β → δ} (h : UpToDepth R x y) (hfg : ∀ a b, R a b → S (f a) (g b)) :
    UpToDepth S (x.map f) (y.map g) := by
  cases h with
  | ok h => exact .ok (hfg _ _ h)
  | error e => exact .error e
  | tooDeep x h => exact .tooDeep _ h

/-- The same is made of the same. -/
theorem map_eq {x y : Except SchemaError α} (h : UpToDepth Eq x y) (f : α → β) :
    UpToDepth Eq (x.map f) (y.map f) :=
  h.map fun _ _ => congrArg f

/-- An error that says that a schema is too deep is to say so wherever it is passed on. -/
theorem mapError {f : SchemaError → SchemaError} (h : UpToDepth R x y)
    (hf : ∀ e : SchemaError, e.IsTooDeep → (f e).IsTooDeep) :
    UpToDepth R (x.mapError f) (y.mapError f) := by
  cases h with
  | ok h => exact .ok h
  | error e => exact .error (f e)
  | tooDeep x h => exact .tooDeep _ (hf _ h)

theorem imp {S : α → β → Prop} (h : UpToDepth R x y) (himp : ∀ a b, x = .ok a → R a b → S a b) :
    UpToDepth S x y := by
  cases h with
  | ok h => exact .ok (himp _ _ rfl h)
  | error e => exact .error e
  | tooDeep x h => exact .tooDeep x h

end UpToDepth

/-! ## Facts -/

/-- Facts are the same, but for the child schemas and the depth, of which no more is
seen than whether an object is a map. -/
structure Facts.Agree (f f' : Facts) : Prop where
  same : f' = { f with children := f'.children, depth := f'.depth }
  isMap : f.isMap = f'.isMap

namespace Facts.Agree

variable {f f' : Facts}

theorem kind_eq (h : f.Agree f') : f.kind = f'.kind := by
  rw [h.same]

theorem form_eq (h : f.Agree f') : f.form = f'.form := by
  unfold form
  rw [h.isMap, h.same]
  rfl

theorem collectionKind_eq (h : f.Agree f') : f.collectionKind = f'.collectionKind := by
  rw [h.same]
  rfl

theorem describedBy (h : f.Agree f') (description : Option String) :
    Agree { f with description } { f' with description } where
  same := congrArg (fun g : Facts => { g with description }) h.same
  isMap := h.isMap

variable (b : Builder)

theorem scalar_eq (h : f.Agree f') (name : String) (c : Computability) (kind : ScalarKind) :
    b.scalar name f c kind = b.scalar name f' c kind := by
  rw [h.same]
  rfl

theorem traits_eq (h : f.Agree f') (c : Computability) : b.traits f c = b.traits f' c := by
  rw [h.same]
  rfl

theorem collectionTraits_eq (h : f.Agree f') (c : Computability) (kind : CollectionKind) :
    b.collectionTraits f c kind = b.collectionTraits f' c kind := by
  rw [h.same]
  rfl

theorem computabilityOf_eq (h : f.Agree f') (p : Property) :
    b.computabilityOf f p = b.computabilityOf f' p := by
  rw [h.same]
  rfl

theorem errorAt_eq (h : f.Agree f') (p : Property) : b.errorAt f p = b.errorAt f' p := by
  rw [h.same]
  rfl

end Facts.Agree

/-! ## Nodes -/

/-- The facts of nodes agree, and so do their children up to the depth. -/
inductive Node.Agree : Node → Node → Prop where
  | mk {n n' : Node} (facts : n.facts.Agree n'.facts)
      (properties : List.Forall₂ (Table.SameKey (UpToDepth Agree)) n.properties n'.properties)
      (items : UpToDepth Agree n.items n'.items)
      (mapValue : UpToDepth Agree n.mapValue n'.mapValue) : Agree n n'

namespace Node

variable {n n' : Node}

theorem Agree.facts (h : n.Agree n') : n.facts.Agree n'.facts := by
  obtain ⟨hfacts, -, -, -⟩ := h
  exact hfacts

theorem Agree.describedBy (h : n.Agree n') (description : Option String) :
    (n.describedBy description).Agree (n'.describedBy description) := by
  obtain ⟨facts, properties, items, mapValue⟩ := n
  obtain ⟨facts', properties', items', mapValue'⟩ := n'
  cases description with
  | none => exact h
  | some d =>
    obtain ⟨hfacts, hproperties, hitems, hvalue⟩ := h
    exact .mk (hfacts.describedBy (some d)) hproperties hitems hvalue

/-- What passes from the children of nodes that agree on to the nodes holds of all
nodes that agree. -/
theorem Agree.inductionOnChildren {motive : Node → Node → Prop}
    (mk : ∀ n n', n.Agree n' →
      List.Forall₂ (Table.SameKey (UpToDepth motive)) n.properties n'.properties →
      UpToDepth motive n.items n'.items → UpToDepth motive n.mapValue n'.mapValue →
      motive n n') (h : n.Agree n') : motive n n' := by
  induction n using Node.inductionOnChildren generalizing n' with
  | mk n ihproperties ihitems ihvalue =>
    refine mk n n' h ?_ ?_ ?_ <;> obtain ⟨-, hproperties, hitems, hvalue⟩ := h
    · refine Table.forall₂_sameKey_imp hproperties fun p x y hmem hxy => ?_
      refine hxy.imp fun child child' hx hchild => ?_
      subst hx
      exact ihproperties p child hmem hchild
    · exact hitems.imp fun child child' hx hchild => ihitems child hx hchild
    · exact hvalue.imp fun child child' hx hchild => ihvalue child hx hchild

/-! ## Element types -/

theorem upToDepth_collectionType (kind : CollectionKind) {x y : Except SchemaError Node}
    (h : UpToDepth (fun n n' => UpToDepth Eq n.elementType n'.elementType) x y) :
    UpToDepth Eq (collectionType kind x) (collectionType kind y) := by
  rw [collectionType_eq_bind, collectionType_eq_bind]
  exact h.bind fun _ _ hmember => hmember.map_eq _

theorem upToDepth_elementFields {l l' : List (Property × Except SchemaError Node)}
    (h : List.Forall₂ (Table.SameKey (UpToDepth fun n n' =>
      UpToDepth Eq n.elementType n'.elementType)) l l') :
    UpToDepth Eq (elementFields l) (elementFields l') := by
  induction h with
  | nil =>
    rw [elementFields]
    exact .ok rfl
  | cons hentry _ ih =>
    obtain ⟨p, hchild⟩ := hentry
    rw [elementFields_cons, elementFields_cons]
    have htype := (hchild.bind fun _ _ => id).mapError fun _ he => he.inProperty p.name
    refine htype.bind ?_
    rintro type _ rfl
    exact ih.map_eq _

/-- Nodes that agree have the same element type, or fail with the same error, unless
a schema is too deep. -/
theorem Agree.elementType (h : n.Agree n') : UpToDepth Eq n.elementType n'.elementType := by
  refine h.inductionOnChildren
    (motive := fun n n' => UpToDepth Eq n.elementType n'.elementType) ?_
  intro n n' h ihproperties ihitems ihvalue
  rw [elementType_eq, elementType_eq n', h.facts.form_eq, h.facts.collectionKind_eq]
  split
  · exact .ok rfl
  · exact upToDepth_collectionType _ ihitems
  · exact upToDepth_collectionType _ ihvalue
  · exact (upToDepth_elementFields ihproperties).map_eq _

end Node

/-! ## Attributes -/

namespace Builder

variable {b : Builder} {n n' : Node}

/-- The same is built of two nodes that agree, unless a schema is too deep. -/
structure BuildsUpToDepth (b : Builder) (n n' : Node) : Prop where
  agree : n.Agree n'
  named : ∀ name c path, UpToDepth Eq (b.named name c path n) (b.named name c path n')
  properties : ∀ owner owner' path, owner.Agree owner' →
    UpToDepth Eq (b.propertyAttributes owner path n.properties)
      (b.propertyAttributes owner' path n'.properties)

theorem upToDepth_propertyAttributes {l l' : List (Property × Except SchemaError Node)}
    (h : List.Forall₂ (Table.SameKey (UpToDepth b.BuildsUpToDepth)) l l') {owner owner' : Facts}
    (howner : owner.Agree owner') (path : String) :
    UpToDepth Eq (b.propertyAttributes owner path l) (b.propertyAttributes owner' path l') := by
  induction h with
  | nil =>
    rw [propertyAttributes, propertyAttributes]
    exact .ok rfl
  | cons hentry _ ih =>
    obtain ⟨p, hchild⟩ := hentry
    by_cases hignored : below path p.name ∈ b.ignores
    · rw [propertyAttributes_cons_of_mem hignored, propertyAttributes_cons_of_mem hignored]
      exact ih
    · rw [propertyAttributes_cons_of_notMem hignored, propertyAttributes_cons_of_notMem hignored,
        howner.computabilityOf_eq, howner.errorAt_eq]
      have hbuilt := (hchild.bind fun _ _ h => h.named p.name (b.computabilityOf owner' p)
        (below path p.name)).mapError fun _ he => he.errorAt b owner' p
      refine hbuilt.bind ?_
      rintro built _ rfl
      exact ih.map_eq _

theorem upToDepth_collected {x y : Except SchemaError Node}
    (h : UpToDepth b.BuildsUpToDepth x y) (name : String) (traits : Traits)
    (kind : CollectionKind) (path : String) :
    UpToDepth Eq (b.collected name traits kind path x) (b.collected name traits kind path y) := by
  rw [collected_eq_bind, collected_eq_bind]
  refine h.bind fun m m' hm => ?_
  rw [hm.agree.facts.form_eq]
  split
  · exact (hm.properties _ _ path hm.agree.facts).map_eq _
  · exact hm.agree.elementType.map_eq _

theorem buildsUpToDepth (b : Builder) (h : n.Agree n') : b.BuildsUpToDepth n n' := by
  refine h.inductionOnChildren (motive := b.BuildsUpToDepth) ?_
  intro n n' h ihproperties ihitems ihvalue
  have hproperties (owner owner' : Facts) (path : String) (howner : owner.Agree owner') :=
    upToDepth_propertyAttributes ihproperties howner path
  refine ⟨h, fun name c path => ?_, hproperties⟩
  rw [named_eq, named_eq b name c path n', h.facts.form_eq, h.facts.collectionKind_eq,
    h.facts.collectionTraits_eq, h.facts.collectionTraits_eq, h.facts.traits_eq]
  split
  · rw [h.facts.scalar_eq]
    exact .ok rfl
  · exact upToDepth_collected ihitems _ _ _ _
  · exact upToDepth_collected ihvalue _ _ _ _
  · exact (hproperties _ _ path h.facts).map_eq _

/-- Nodes that agree become the same attributes, or fail with the same error, unless a
schema is too deep. -/
theorem upToDepth_attributes (b : Builder) (h : n.Agree n') :
    UpToDepth Eq (b.attributes n) (b.attributes n') := by
  unfold attributes
  rw [h.facts.kind_eq]
  split
  · exact (b.buildsUpToDepth h).properties _ _ "" h.facts
  · exact .error _

/-- So it is with a single attribute. -/
theorem upToDepth_attributeNamed (b : Builder) (h : n.Agree n') (name : String)
    (c : Computability) :
    UpToDepth Eq (b.attributeNamed name n c) (b.attributeNamed name n' c) :=
  ((b.buildsUpToDepth h).named name c name).mapError fun _ he => he.inProperty name

end Builder

end ProviderSchema
