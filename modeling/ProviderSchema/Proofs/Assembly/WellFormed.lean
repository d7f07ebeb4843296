import ProviderSchema.Proofs.Assembly.Everywhere

/-!
# Well-formed attributes

What an attribute may say depends on its variant and on the schema it is in.
Only the scalars of resources have values for when none is given, and then
nobody has to give one; an attribute has the validators of its variant; only
texts are sensitive; and members that are objects are nested attributes.

`Attribute.WellFormed` says so of one attribute.  Builders make nothing else
(`Builder.makes_wellFormed`), whatever computability is forced, and a merge
only takes texts, fields and nested attributes from another attribute
(`keptByAssembly_wellFormed`).
-/

namespace ProviderSchema

open OpenApi

namespace Attribute

/-- What the values of a variant are for validators, if there are any for
them. -/
def Variant.target? : Variant → Option ValidatorTarget
  | .scalar .string => some .string
  | .scalar .int64 => some .int64
  | .scalar .float64 => some .float64
  | .scalar .bool | .scalar .number => none
  | .collection .list | .nested .list => some .list
  | .collection .set | .nested .set => some .set
  | .collection .map | .nested .map => some .map
  | .single => none

/-- Whether an attribute has a value if none is given. -/
def hasDefault (a : Attribute) : Bool := a.scalar?.any ScalarShape.hasDefault

/-- An attribute says nothing that its variant and the flavor of its schema do
not allow. -/
structure WellFormed (flavor : Flavor) (a : Attribute) : Prop where
  /-- Only in resources, and where it need not be given, there is a value if
  none is given. -/
  default : a.hasDefault = true → flavor = .resource ∧
    a.traits.computability ≠ .required ∧ a.traits.computability ≠ .optional
  /-- All validators are for values of the variant; there are none if there
  are none for such values. -/
  validators : ∀ v ∈ a.traits.validators, a.variant.target? = some v.target
  sensitive : a.traits.sensitive.isSome = true → a.variant = .scalar .string
  /-- No collection of values has objects for members. -/
  objectsNested : a.ObjectsNested

instance (flavor : Flavor) : DecidablePred (WellFormed flavor) := fun a =>
  decidable_of_iff
    ((a.hasDefault = true → flavor = .resource ∧
        a.traits.computability ≠ .required ∧ a.traits.computability ≠ .optional) ∧
      (∀ v ∈ a.traits.validators, a.variant.target? = some v.target) ∧
      (a.traits.sensitive.isSome = true → a.variant = .scalar .string) ∧ a.ObjectsNested)
    ⟨fun h => ⟨h.1, h.2.1, h.2.2.1, h.2.2.2⟩,
      fun h => ⟨h.default, h.validators, h.sensitive, h.objectsNested⟩⟩

/-! ## Merges and other texts -/

variable {flavor : Flavor}

/-- Attributes of one variant whose traits differ in texts only are
well-formed alike. -/
theorem WellFormed.of_texts {a a' : Attribute} (h : a.WellFormed flavor) {f : Traits → Traits}
    (hf : Traits.ChangesTexts f) (htraits : a'.traits = f a.traits)
    (hvariant : a'.variant = a.variant) (hscalar : a'.scalar? = a.scalar?)
    (hobjects : a'.ObjectsNested) : a'.WellFormed flavor := by
  rw [hf] at htraits
  refine ⟨?_, ?_, ?_, hobjects⟩
  · unfold hasDefault
    rw [hscalar, htraits]
    exact h.default
  · rw [hvariant, htraits]
    exact h.validators
  · rw [hvariant, htraits]
    exact h.sensitive

theorem keptByAssembly_wellFormed (flavor : Flavor) : KeptByAssembly (WellFormed flavor) where
  children a children h := by
    cases a <;> exact ⟨h.default, h.validators, h.sensitive, h.objectsNested⟩
  merge a s hvariant ha hs := by
    refine ha.of_texts (f := fun t => t.filledFrom s.traits) ?_ (traits_merge hvariant)
      (variant_merge a s) (scalar?_merge a s)
      (objectsNested_merge hvariant ha.objectsNested hs.objectsNested)
    intro t
    dsimp only
    rw [filledFrom_eq]
  texts f hf a h := by
    refine h.of_texts hf (traits_mapTraits f a) ?_ ?_ ?_
    · cases a <;> rfl
    · cases a <;> rfl
    · cases a <;> exact h.objectsNested

end Attribute

/-! ## What is made -/

namespace Builder

variable (b : Builder)

theorem wellFormed_scalar (name : String) (facts : Facts) (c : Computability) (kind : ScalarKind) :
    (b.scalar name facts c kind).WellFormed b.flavor where
  default h := ⟨hasDefault_scalarShape h, withDefault_ne h _⟩
  validators v hv := by
    have hvariant : (b.scalar name facts c kind).variant = .scalar kind :=
      congrArg Attribute.Variant.scalar (b.kind_scalarShape facts kind)
    rw [hvariant]
    cases kind with
    | bool => cases hv
    | number => cases hv
    | _ =>
      obtain ⟨rule, -, rfl⟩ := List.mem_map.mp hv
      rfl
  sensitive h := by
    have hkind : kind = .string := by
      by_contra hne
      simp [scalar, Attribute.traits, hne] at h
    rw [hkind]
    rfl
  objectsNested t ht := by cases ht

theorem target_of_mem_validators {facts : Facts} {kind : CollectionKind} {c : Computability}
    {v : Validator} (hv : v ∈ (b.collectionTraits facts c kind).validators) :
    v.target = kind.target := by
  obtain ⟨rule, -, rfl⟩ := List.mem_map.mp hv
  rfl

theorem makes_wellFormed : b.Makes (Attribute.WellFormed b.flavor) where
  scalar := b.wellFormed_scalar
  collection name facts c kind element helement := by
    refine ⟨nofun, ?_, nofun, ?_⟩
    · intro v hv
      rw [b.target_of_mem_validators hv]
      cases kind <;> rfl
    · rintro t ⟨⟩
      exact helement
  nested name facts c kind attributes := by
    refine ⟨nofun, ?_, nofun, nofun⟩
    intro v hv
    rw [b.target_of_mem_validators hv]
    cases kind <;> rfl
  single name facts c attributes := ⟨nofun, nofun, nofun, nofun⟩

end Builder

/-! ## Generated schemas -/

/-- Every attribute of every generated schema is well-formed. -/
theorem wellFormed_of_generate_eq_ok {d : Description} {c : Configuration}
    {lines : Option LineIndex} {g : Generated} (h : generate d c lines = .ok g) :
    (∀ attributes, g.specification.provider.attributes = some attributes →
        ∀ a ∈ attributes, a.Each (Attribute.WellFormed .provider)) ∧
      (∀ e ∈ g.specification.resources, ∀ a ∈ e.attributes,
        a.Each (Attribute.WellFormed .resource)) ∧
      ∀ e ∈ g.specification.dataSources, ∀ a ∈ e.attributes,
        a.Each (Attribute.WellFormed .dataSource) :=
  each_of_generate_eq_ok Attribute.keptByAssembly_wellFormed Builder.makes_wellFormed h

/-- The role of an account has a default, its password is a secret, and it
has labels and phones, whose numbers have a default too. -/
def accountSchema : Schema :=
  .inline { type := some (.single .object), required := ["password"] }
    { properties := [
        ("role", .inline
          { type := some (.single .string), default := some (.text "guest"), maxLength := some 20 }
          {}),
        ("password", .inline
          { type := some (.single .string), format := some "password", minLength := some 8 } {}),
        ("labels", .inline { type := some (.single .array), maxItems := some 5 }
          { items := some (.schema textSchema) }),
        ("phones", .inline { type := some (.single .array), minItems := some 1 }
          { items := some (.schema (.inline { type := some (.single .object) }
            { properties := [("number", .inline
              { type := some (.single .string), default := some (.text "none") } {})] })) })] }

/-- A description of accounts, which are created and read. -/
def accountDescription : Description where
  openapi := "3.0.0"
  info := { title := "Accounts", version := "1" }
  paths := [("/accounts", {
    post := some { requestBody := some (.inline { content := [("application/json",
      { schema := some accountSchema })] }) }
    get := some { responses := [("200", .inline { content := [("application/json",
      { schema := some accountSchema })] })] } })]

/-- A configuration with accounts as a resource. -/
def accountConfiguration : Configuration where
  provider := { name := "accounts" }
  resources := [("account",
    { create := some ⟨"/accounts", "POST"⟩, read := some ⟨"/accounts", "GET"⟩ })]

/-- What an attribute says that its variant has to allow. -/
structure Attribute.Sayings where
  name : String
  hasDefault : Bool := false
  isSensitive : Bool := false
  validated : List ValidatorTarget
deriving DecidableEq

/-- What an attribute says, without its shape. -/
def Attribute.sayings (a : Attribute) : Sayings where
  name := a.name
  hasDefault := a.hasDefault
  isSensitive := a.traits.sensitive.isSome
  validated := a.traits.validators.map (·.target)

/-- A default, a secret, and validators for texts and for lists. -/
theorem wellFormed_generate_accounts :
    ∃ g, generate accountDescription accountConfiguration none = .ok g ∧
      ∃ e ∈ g.specification.resources,
        e.attributes.map Attribute.sayings =
          [{ name := "labels", validated := [.list] },
            { name := "password", isSensitive := true, validated := [.string] },
            { name := "phones", validated := [.list] },
            { name := "role", hasDefault := true, validated := [.string] }] ∧
        ∀ a ∈ e.attributes, a.Each (Attribute.WellFormed .resource) := by
  obtain ⟨g, hg, hentries⟩ := exists_ok_of_toOption_map_eq_some
    (show (generate accountDescription accountConfiguration none).toOption.map (fun g =>
        g.specification.resources.map fun e => e.attributes.map Attribute.sayings) =
      some [[{ name := "labels", validated := [.list] },
        { name := "password", isSensitive := true, validated := [.string] },
        { name := "phones", validated := [.list] },
        { name := "role", hasDefault := true, validated := [.string] }]] by decide +kernel)
  obtain ⟨e, he, hsayings⟩ := List.map_eq_singleton_iff.mp hentries
  have hmem : e ∈ g.specification.resources := by rw [he]; exact List.mem_cons_self
  exact ⟨g, hg, e, hmem, hsayings, (wellFormed_of_generate_eq_ok hg).2.1 e hmem⟩

end ProviderSchema
