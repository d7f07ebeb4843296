import ProviderSchema.Proofs.Attribute.MergeOne
import ProviderSchema.Proofs.Node.BuiltAlike
import ProviderSchema.Proofs.Node.BuiltAttributes
import ProviderSchema.Proofs.Node.Location

/-!
# What an attribute keeps of the schema of its property

A property may have a composed schema.  Then its node is made of a schema that is
reached by steps into compositions, the effective one (`exists_at?_of_branch`), and of
the keywords of the schemas passed on the way none but the description is looked at.
The attribute says that it is deprecated if the effective schema says so, and it has the
default of the effective schema.

So an attribute keeps what the schema of its property says itself about deprecation and
the default exactly if the effective schema says the same (`Builder.keepsOwn_iff`).  A
schema that is not composed is the effective one.
-/

namespace ProviderSchema

open OpenApi

/-! ## Effective schemas -/

namespace Node

theorem schema_describedBy (description : Option String) (n : Node) :
    (n.describedBy description).schema = n.schema := by
  cases n
  cases description <;> rfl

end Node

namespace OpenApi.Schema

/-- The effective schema of a node is reached by steps into compositions. -/
theorem exists_at?_of_branch (s : Schema) : ∀ {depth : Nat} {location : List String} {n : Node},
    branch depth location s = .ok (.node n) →
      ∃ path, (∀ step ∈ path, step.isIntoComposition = true) ∧ at? path s = some n.schema := by
  induction s using inductionOnHeld with
  | reference target =>
    intro depth location n h
    rw [branch] at h
    split at h <;> cases h
  | inline keywords c ih =>
    intro depth location n h
    obtain ⟨-, ⟨t, ht, m, hm, rfl⟩ | ⟨-, kind, -, rfl⟩⟩ := branch_inline_inversion h
    · obtain ⟨step, hstep, hchild⟩ := Children.exists_child?_of_mem_composition ht
      obtain ⟨path, hpath, hat⟩ := ih t (.composed ht) hm
      refine ⟨step :: path, List.forall_mem_cons.mpr ⟨hstep, hpath⟩, ?_⟩
      rw [at?, hchild, Option.bind_some, hat, Node.schema_describedBy]
    · exact ⟨[], by simp, rfl⟩

/-- A schema that is not composed of others is the effective one. -/
theorem schema_eq_of_branch {k : Keywords} {c : Children Schema}
    (hnone : c.allOf ++ c.anyOf ++ c.oneOf = []) {depth : Nat} {location : List String} {n : Node}
    (h : branch depth location (.inline k c) = .ok (.node n)) : n.schema = .inline k c := by
  obtain ⟨-, ⟨t, ht, -⟩ | ⟨-, kind, -, rfl⟩⟩ := branch_inline_inversion h
  · rw [hnone] at ht
    cases ht
  · rfl

end OpenApi.Schema

/-! ## What is kept -/

/-- A scalar with a value as its default, if the value is of its kind. -/
def ScalarKind.shapeOf (kind : ScalarKind) (value : Option Json) : ScalarShape :=
  match kind with
  | .bool => .bool (value.bind Json.bool?)
  | .int64 => .int64 (value.bind Json.int64?)
  | .float64 => .float64 (value.bind Json.float?)
  | .number => .number (value.bind Json.float?)
  | .string => .string (value.bind Json.text?)

@[simp] theorem ScalarKind.kind_shapeOf (kind : ScalarKind) (value : Option Json) :
    (kind.shapeOf value).kind = kind := by
  cases kind <;> rfl

/-- A default that is `null` is none. -/
theorem ScalarKind.shapeOf_default? (kind : ScalarKind) {f : Facts} {value : Json}
    (h : f.keywords.default = some value) :
    kind.shapeOf f.default? = kind.shapeOf (some value) := by
  rw [Facts.default?, h]
  cases value <;> cases kind <;> rfl

namespace Attribute

/-- If the keywords declare that something is deprecated, the attribute says so. -/
def KeepsDeprecation (a : Attribute) (k : Keywords) : Prop :=
  k.deprecated = some true → a.traits.deprecation = some deprecationMessage

/-- If the keywords declare a default of the kind of a scalar attribute, the attribute has
it and need not be set. -/
def KeepsDefault (a : Attribute) (k : Keywords) : Prop :=
  ∀ shape value, a.scalar? = some shape → k.default = some value →
    (shape.kind.shapeOf (some value)).hasDefault = true →
      shape = shape.kind.shapeOf (some value) ∧
        a.traits.computability ≠ .required ∧ a.traits.computability ≠ .optional

end Attribute

namespace Builder

variable {b : Builder} {name path : String} {c : Computability} {n : Node} {a : Attribute}

theorem scalarShape_of_resource (hflavor : b.flavor = .resource) (facts : Facts)
    (kind : ScalarKind) : b.scalarShape facts kind = kind.shapeOf facts.default? := by
  have hdefault : ∀ {α : Type} (read : Json → Option α),
      b.default? facts read = facts.default?.bind read := fun read => by
    rw [default?, hflavor]
    rfl
  cases kind <;> simp only [scalarShape, ScalarKind.shapeOf, hdefault]

/-- An attribute is deprecated if the effective schema is. -/
theorem deprecation_named (h : b.named name c path n = .ok a) :
    a.traits.deprecation = if n.facts.isDeprecated then some deprecationMessage else none := by
  have hcollected {kind member}
      (h : b.collected name (b.collectionTraits n.facts c kind) kind path member = .ok a) :
      a.traits.deprecation = if n.facts.isDeprecated then some deprecationMessage else none := by
    obtain ⟨m, -, ⟨-, _, -, rfl⟩ | ⟨-, _, -, rfl⟩⟩ := collected_eq_ok_iff.mp h <;> rfl
  rw [named_eq] at h
  split at h
  · cases h
    rfl
  · exact hcollected h
  · exact hcollected h
  · obtain ⟨attributes, -, rfl⟩ := map_eq_ok_iff.mp h
    rfl

/-- An attribute is a scalar if the node is. -/
theorem eq_scalar_of_scalar?_named (h : b.named name c path n = .ok a) {shape : ScalarShape}
    (hshape : a.scalar? = some shape) :
    ∃ kind, n.facts.form = .scalar kind ∧ a = b.scalar name n.facts c kind ∧
      shape = b.scalarShape n.facts kind := by
  have hcollected {traits kind member}
      (h : b.collected name traits kind path member = .ok a) : a.scalar? = none := by
    obtain ⟨m, -, ⟨-, _, -, rfl⟩ | ⟨-, _, -, rfl⟩⟩ := collected_eq_ok_iff.mp h <;> rfl
  rw [named_eq] at h
  split at h
  · rename_i kind hform
    cases h
    cases hshape
    exact ⟨kind, hform, rfl, rfl⟩
  · rw [hcollected h] at hshape
    cases hshape
  · rw [hcollected h] at hshape
    cases hshape
  · obtain ⟨attributes, -, rfl⟩ := map_eq_ok_iff.mp h
    cases hshape

theorem keepsDeprecation_iff (h : b.named name c path n = .ok a) (k : Keywords) :
    a.KeepsDeprecation k ↔
      (k.deprecated = some true → n.facts.keywords.deprecated = some true) := by
  unfold Attribute.KeepsDeprecation
  rw [deprecation_named h]
  simp [Facts.isDeprecated]

theorem keepsDefault_iff (hflavor : b.flavor = .resource) (h : b.named name c path n = .ok a)
    (k : Keywords) :
    a.KeepsDefault k ↔
      ∀ kind value, n.facts.form = .scalar kind → k.default = some value →
        (kind.shapeOf (some value)).hasDefault = true →
          kind.shapeOf n.facts.default? = kind.shapeOf (some value) := by
  constructor
  · intro hkeeps kind value hform hvalue hdefault
    rw [named_eq, hform] at h
    cases h
    have hkind := b.kind_scalarShape n.facts kind
    obtain ⟨hshape, -⟩ := hkeeps _ value rfl hvalue (by rw [hkind]; exact hdefault)
    rw [hkind, scalarShape_of_resource hflavor] at hshape
    exact hshape
  · intro hsame shape value hscalar hvalue hdefault
    obtain ⟨kind, hform, rfl, rfl⟩ := eq_scalar_of_scalar?_named h hscalar
    rw [scalarShape_of_resource hflavor, ScalarKind.kind_shapeOf] at hdefault ⊢
    have heq := hsame kind value hform hvalue hdefault
    refine ⟨heq, ?_⟩
    have hset : (b.scalarShape n.facts kind).hasDefault = true := by
      rw [scalarShape_of_resource hflavor, heq]
      exact hdefault
    exact withDefault_ne hset _

/-- The attribute of a property keeps what the schema of the property itself declares
about deprecation exactly if the effective schema declares it as well, and so it is with
the default in a resource.  The effective schema is reached by steps into compositions, so
a schema that is not composed loses nothing. -/
theorem keepsOwn_iff (b : Builder) {s : Schema} {root owner m : Node} {way : List Step}
    {p : Property} {k : Keywords} {children : Children Schema} {path : String} {a : Attribute}
    (hroot : s.node = .ok root) (hreach : root.Reaches way owner)
    (hnames : (owner.facts.children.properties.map (·.1)).Nodup)
    (hown : (p.original, .inline k children) ∈ owner.facts.children.properties)
    (hm : (p, .ok m) ∈ owner.properties)
    (ha : b.named p.name (b.computabilityOf owner.facts p) path m = .ok a) :
    (∃ steps, (∀ step ∈ steps, step.isIntoComposition = true) ∧
        Schema.at? steps (.inline k children) = some m.schema) ∧
      (a.KeepsDeprecation k ↔
        (k.deprecated = some true → m.facts.keywords.deprecated = some true)) ∧
      (b.flavor = .resource → (a.KeepsDefault k ↔
        ∀ kind value, m.facts.form = .scalar kind → k.default = some value →
          (kind.shapeOf (some value)).hasDefault = true →
            kind.shapeOf m.facts.default? = kind.shapeOf (some value))) ∧
      (children.allOf ++ children.anyOf ++ children.oneOf = [] →
        a.KeepsDeprecation k ∧ (b.flavor = .resource → a.KeepsDefault k)) := by
  have hdeprecation := keepsDeprecation_iff ha k
  have hdefault := fun hflavor => keepsDefault_iff hflavor ha k
  obtain ⟨location, hbranch⟩ : ∃ location,
      Schema.branch (owner.facts.depth + 1) location (.inline k children) = .ok (.node m) := by
    obtain ⟨harranged, -⟩ := (Schema.arranged_of_node_eq_ok hroot).of_reaches hreach
    rw [harranged] at hm
    obtain ⟨t, ht, hbranch⟩ := Schema.mem_propertyNodes (mem_of_mem_arrange hm).2
    have hsame : t = .inline k children := by
      rw [← Table.get?_eq_some_iff hnames] at ht hown
      rw [hown] at ht
      exact (Option.some.inj ht).symm
    rw [hsame] at hbranch
    exact ⟨_, hbranch⟩
  refine ⟨Schema.exists_at?_of_branch _ hbranch, hdeprecation, hdefault, fun hnone => ?_⟩
  have hkeywords : m.facts.keywords = k := by
    have hschema := Schema.schema_eq_of_branch hnone hbranch
    rw [Node.schema] at hschema
    exact (Schema.inline.inj hschema).1
  refine ⟨hdeprecation.mpr fun h => by rwa [hkeywords], fun hflavor => (hdefault hflavor).mpr ?_⟩
  intro kind value _ hvalue _
  exact kind.shapeOf_default? (by rw [hkeywords, hvalue])

/-- A property that is deprecated and has a default, around a string. -/
def stateKeywords : Keywords := { deprecated := some true, default := some (.text "on") }

/-- The children of that property: the only member of `allOf` is a text. -/
def stateChildren : Children Schema :=
  { allOf := [.inline { type := some (.single .string) } {}] }

/-- An object with that property. -/
def switchSchema : Schema :=
  .inline { type := some (.single .object) }
    { properties := [("state", .inline stateKeywords stateChildren)] }

/-- The attribute of the first property of an object. -/
def firstAttribute? (b : Builder) (owner : Node) :
    Option (Property × Except SchemaError Attribute) :=
  match owner.properties with
  | (p, .ok m) :: _ => some (p, b.named p.name (b.computabilityOf owner.facts p) p.name m)
  | _ => none

/-- The attribute of the property has neither a deprecation nor a default. -/
theorem exists_state :
    ∃ root m a, switchSchema.node = .ok root ∧ root.schema = switchSchema ∧
      (⟨"state", "state"⟩, .ok m) ∈ root.properties ∧
      named { flavor := .resource } "state"
        (computabilityOf { flavor := .resource } root.facts ⟨"state", "state"⟩) "state" m = .ok a ∧
      a.traits.deprecation = none ∧ a.scalar? = some (.string none) := by
  obtain ⟨root, hroot, hbuilt⟩ := exists_ok_of_toOption_map_eq_some
    (show switchSchema.node.toOption.map (fun root =>
      (firstAttribute? { flavor := .resource } root).map fun (p, a) =>
        (p, a.toOption.map fun a => (a.traits.deprecation, a.scalar?))) =
          some (some (⟨"state", "state"⟩, some (none, some (.string none)))) by decide +kernel)
  have hschema : root.schema = switchSchema :=
    Schema.schema_eq_of_branch rfl (Branch.bind_toNode_eq_ok_iff.mp hroot)
  unfold firstAttribute? at hbuilt
  split at hbuilt
  · rename_i p m rest hproperties
    obtain ⟨rfl, hnamed⟩ := Prod.mk.inj (Option.some.inj hbuilt)
    obtain ⟨a, ha, hseen⟩ := exists_ok_of_toOption_map_eq_some hnamed
    obtain ⟨hdeprecation, hshape⟩ := Prod.mk.inj hseen
    exact ⟨root, m, a, hroot, hschema, by rw [hproperties]; exact List.mem_cons_self, ha,
      hdeprecation, hshape⟩
  · cases hbuilt

theorem keepsOwn_iff_switchSchema :
    ∃ root m a, switchSchema.node = .ok root ∧ (⟨"state", "state"⟩, .ok m) ∈ root.properties ∧
      named { flavor := .resource } "state"
        (computabilityOf { flavor := .resource } root.facts ⟨"state", "state"⟩) "state" m = .ok a ∧
      (∃ steps, (∀ step ∈ steps, step.isIntoComposition = true) ∧
        Schema.at? steps (.inline stateKeywords stateChildren) = some m.schema) ∧
      (a.KeepsDeprecation stateKeywords ↔
        (stateKeywords.deprecated = some true → m.facts.keywords.deprecated = some true)) := by
  obtain ⟨root, m, a, hroot, hschema, hm, ha, -⟩ := exists_state
  obtain ⟨-, hchildren⟩ := Schema.inline.inj hschema
  obtain ⟨hat, hdeprecation, -⟩ := keepsOwn_iff { flavor := .resource } hroot (.here root)
    (by rw [hchildren]; decide) (by rw [hchildren]; exact List.mem_cons_self) hm ha
  exact ⟨root, m, a, hroot, hm, ha, hat, hdeprecation⟩

/-- What the schema of the property declares is lost. -/
theorem state_keeps_neither :
    ∃ root m a, switchSchema.node = .ok root ∧ root.schema = switchSchema ∧
      (⟨"state", "state"⟩, .ok m) ∈ root.properties ∧
      named { flavor := .resource } "state"
        (computabilityOf { flavor := .resource } root.facts ⟨"state", "state"⟩) "state" m = .ok a ∧
      ¬ a.KeepsDeprecation stateKeywords ∧ ¬ a.KeepsDefault stateKeywords := by
  obtain ⟨root, m, a, hroot, hschema, hm, ha, hdeprecation, hshape⟩ := exists_state
  refine ⟨root, m, a, hroot, hschema, hm, ha, fun hkeeps => ?_, fun hkeeps => ?_⟩
  · have hsaid := hkeeps rfl
    rw [hdeprecation] at hsaid
    cases hsaid
  · obtain ⟨hdefault, -⟩ := hkeeps _ (.text "on") hshape rfl rfl
    cases hdefault

end Builder

end ProviderSchema
