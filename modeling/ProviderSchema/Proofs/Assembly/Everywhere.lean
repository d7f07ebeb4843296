import ProviderSchema.Proofs.Assembly.Overrides
import ProviderSchema.Proofs.Assembly.UniqueNames
import ProviderSchema.Proofs.Node.BuiltAttributes

/-!
# What holds everywhere in generated schemas

Every attribute of a generated schema has been made by a builder of the flavor
of the schema, and then been merged with others and been given other texts.
So what holds of all attributes that such builders make (`Builder.Makes`), and
is kept by what happens to them later (`Attribute.KeptByAssembly`), holds of
every attribute of every generated schema (`each_of_generate_eq_ok`).
-/

namespace ProviderSchema

open OpenApi Attribute

/-- Only texts are changed: the description, and what is said about
deprecation. -/
def Traits.ChangesTexts (f : Traits → Traits) : Prop :=
  ∀ t, f t = { t with description := (f t).description, deprecation := (f t).deprecation }

/-- Nothing that happens to an attribute after it has been made changes that
`P` holds of it. -/
structure Attribute.KeptByAssembly (P : Attribute → Prop) : Prop where
  children : IgnoresChildren P
  merge : ∀ a s : Attribute, a.variant = s.variant → P a → P s → P (a.merge s)
  texts : ∀ f, Traits.ChangesTexts f → ∀ a : Attribute, P a → P (a.mapTraits f)

/-! ## What is contributed -/

namespace Builder

variable {b : Builder} {P : Attribute → Prop}

theorem each_bodyAttributes {body : Body} (hb : Makes { b with forced := body.forced } P)
    {attributes : List Attribute} (h : b.bodyAttributes body = .ok attributes) :
    ∀ a ∈ attributes, a.Each P := by
  rcases bodyAttributes_eq_ok_iff.mp h with ⟨_, node, -, -, hattributes⟩ | ⟨_, -, -, -, rfl⟩
  · exact hb.each_attributes hattributes
  · simp

theorem each_parameterAttribute (hP : KeptByAssembly P)
    (hb : ∀ forced, Makes { b with forced } P) {role : ParameterRole} {name : String}
    {p : Parameter} {schema : Schema} {a : Attribute}
    (h : b.parameterAttribute role name p schema = .ok a) : a.Each P := by
  obtain ⟨node, built, -, hbuilt, rfl⟩ := parameterAttribute_eq_ok_iff.mp h
  have heach := (hb _).each_attributeNamed hbuilt
  split
  · exact heach.mapTraits (hP.texts _ fun _ => rfl)
  · exact heach

theorem each_operationParameters (hP : KeptByAssembly P)
    (hb : ∀ forced, Makes { b with forced } P) {role : ParameterRole} {options : SchemaOptions}
    {o : ExploredOperation} {attributes : List Attribute}
    (h : b.operationParameters role options o = .ok attributes) : ∀ a ∈ attributes, a.Each P :=
  forall_mem_parameterAttributes (fun _ _ _ _ => each_parameterAttribute hP hb)
    (mapError_eq_ok_iff.mp h)

end Builder

/-! ## Entries -/

namespace Source

variable {s : Source} {P : Attribute → Prop}

theorem each_provider (hb : ∀ b : Builder, b.flavor = .provider → b.Makes P)
    {c : ProviderConfiguration} {entry : ProviderEntry} (h : s.provider c = .ok entry)
    {attributes : List Attribute} (hattributes : entry.attributes = some attributes) :
    ∀ a ∈ attributes, a.Each P := by
  obtain ⟨-, ⟨-, hnone⟩ | ⟨_, _, node, built, -, -, -, hbuilt, hsome⟩⟩ := provider_eq_ok_iff.mp h
  · rw [hnone] at hattributes
    cases hattributes
  · rw [hsome] at hattributes
    cases hattributes
    exact (hb (s.providerBuilder c) rfl).each_attributes hbuilt

theorem each_resource (hP : KeptByAssembly P)
    (hb : ∀ b : Builder, b.flavor = .resource → b.Makes P) {name : String}
    {c : ResourceConfiguration} {attributes : List Attribute}
    (h : s.resource name c = .ok attributes) : ∀ a ∈ attributes, a.Each P := by
  obtain ⟨o, primary, others, -, hcontributions, rfl⟩ := resource_eq_ok_iff.mp h
  obtain ⟨hprimary, bodies, parameters, hbodies, hparameters, rfl⟩ :=
    resourceContributions_eq_ok_iff.mp hcontributions
  refine Each.applyOverrides hP.children (fun a _ => hP.texts _ (fun _ => rfl) a) _ ?_
  refine Each.mergeAttributes hP.merge (Builder.each_bodyAttributes (hb _ rfl) hprimary) ?_
  intro source hsource
  rw [List.mem_append, List.mem_singleton] at hsource
  rcases hsource with hsource | rfl
  · obtain ⟨body, -, hbody⟩ := exists_of_mem_of_mapM_eq_ok hbodies hsource
    exact Builder.each_bodyAttributes (hb _ rfl) hbody
  · exact Builder.each_operationParameters hP (fun _ => hb _ rfl) hparameters

theorem each_responseAttributes {b : Builder} (hb : b.Makes P) {name : String} {node : Node}
    {attributes : List Attribute} (h : responseAttributes b name node = .ok attributes) :
    ∀ a ∈ attributes, a.Each P := by
  unfold responseAttributes at h
  split at h
  · obtain ⟨a, ha, rfl⟩ := map_eq_ok_iff.mp h
    simpa using hb.each_attributeNamed ha
  · exact hb.each_attributes h

theorem each_dataSource (hP : KeptByAssembly P)
    (hb : ∀ b : Builder, b.flavor = .dataSource → b.Makes P) {name : String}
    {c : DataSourceConfiguration} {attributes : List Attribute}
    (h : s.dataSource name c = .ok attributes) : ∀ a ∈ attributes, a.Each P := by
  obtain ⟨o, parameters, response, -, hcontributions, rfl⟩ := dataSource_eq_ok_iff.mp h
  obtain ⟨hparameters, schema, node, -, -, hresponse⟩ :=
    dataSourceContributions_eq_ok_iff.mp hcontributions
  refine Each.applyOverrides hP.children (fun a _ => hP.texts _ (fun _ => rfl) a) _ ?_
  refine Each.mergeAttributes hP.merge ?_ ?_
  · exact Builder.each_operationParameters hP (fun _ => hb _ rfl) hparameters
  · intro source hsource
    rw [List.mem_singleton] at hsource
    rw [hsource]
    exact each_responseAttributes (hb _ rfl) hresponse

end Source

/-! ## Generated schemas -/

/-- What holds of every attribute that builders of a flavor make holds
everywhere in the generated schemas of that flavor. -/
theorem each_of_generate_eq_ok {P : Flavor → Attribute → Prop}
    (hP : ∀ flavor, KeptByAssembly (P flavor)) (hb : ∀ b : Builder, b.Makes (P b.flavor))
    {d : Description} {c : Configuration} {lines : Option LineIndex} {g : Generated}
    (h : generate d c lines = .ok g) :
    (∀ attributes, g.specification.provider.attributes = some attributes →
        ∀ a ∈ attributes, a.Each (P .provider)) ∧
      (∀ e ∈ g.specification.resources, ∀ a ∈ e.attributes, a.Each (P .resource)) ∧
      ∀ e ∈ g.specification.dataSources, ∀ a ∈ e.attributes, a.Each (P .dataSource) := by
  have hflavor (flavor : Flavor) (b : Builder) (hflavor : b.flavor = flavor) :
      b.Makes (P flavor) := hflavor ▸ hb b
  refine ⟨fun attributes => Source.each_provider (hflavor .provider)
    (provider_eq_ok_of_generate_eq_ok h), ?_, ?_⟩
  · intro e he
    obtain ⟨config, -, hattributes⟩ := exists_resource_eq_ok_of_generate_eq_ok h he
    exact Source.each_resource (hP .resource) (hflavor .resource) hattributes
  · intro e he
    obtain ⟨config, -, hattributes⟩ := exists_dataSource_eq_ok_of_generate_eq_ok h he
    exact Source.each_dataSource (hP .dataSource) (hflavor .dataSource) hattributes

end ProviderSchema
