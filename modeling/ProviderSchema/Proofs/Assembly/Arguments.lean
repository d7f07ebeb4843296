import ProviderSchema.Proofs.Assembly.Everywhere
import ProviderSchema.Proofs.Attribute.Extends

/-!
# The arguments of data sources

The attributes of a data source are those of the parameters by which it is
read, merged with those of the response.  The response is built with everything
computed, and a merge leaves the computability of its target as it is.  So the
parameters decide which attributes are arguments: they come first, at every
level, and all that the response adds is computed (`Source.argumentsFirst`).  At
the top an attribute is required exactly if a required parameter of its name is.

Two parameters may have one name.  That is why paths are told by `StandsAt`
here, which does not stop at the first attribute of a name.
-/

namespace ProviderSchema

open OpenApi
open Attribute (Each StandsAt Extends KeptByAssembly)

/-! ## Who sets what is contributed -/

/-- Nobody sets the attribute. -/
def Attribute.IsComputed (a : Attribute) : Prop := a.traits.computability = .computed

theorem keptByAssembly_isComputed : KeptByAssembly Attribute.IsComputed := by
  refine ⟨?_, ?_, ?_⟩
  · intro a children ha
    unfold Attribute.IsComputed at ha ⊢
    rw [Attribute.traits_withChildren, ha]
  · intro a s _ ha _
    exact (Attribute.keeps_merge a s).computability.trans ha
  · intro f hf a ha
    unfold Attribute.IsComputed at ha ⊢
    rw [Attribute.traits_mapTraits, hf]
    exact ha

namespace Builder

variable {b : Builder}

/-- If everything is computed, no default changes it. -/
theorem makes_isComputed (h : b.forced = some .computed) : b.Makes Attribute.IsComputed := by
  have htraits : ∀ facts c, (b.traits facts c).computability = .computed := by
    intro facts c
    show b.forced.getD c = .computed
    rw [h]
    rfl
  refine ⟨?_, ?_, ?_, ?_⟩
  · intro name facts c kind
    show withDefault _ (b.traits facts c).computability = .computed
    rw [htraits]
    exact if_neg fun hdefault => by rcases hdefault.2 with heq | heq <;> cases heq
  · exact fun _ facts c _ _ _ => htraits facts c
  · exact fun _ facts c _ _ => htraits facts c
  · exact fun _ facts c _ => htraits facts c

/-- Without defaults an attribute has the computability that it is built with. -/
theorem computability_named (hflavor : b.flavor ≠ .resource) {name path : String}
    {c : Computability} {n : Node} {a : Attribute} (h : b.named name c path n = .ok a) :
    a.traits.computability = b.forced.getD c := by
  have hcollected : ∀ {kind member}, b.collected name (b.collectionTraits n.facts c kind) kind path
      member = .ok a → a.traits.computability = b.forced.getD c := by
    intro kind member ha
    obtain ⟨m, -, ⟨-, _, -, rfl⟩ | ⟨-, _, -, rfl⟩⟩ := collected_eq_ok_iff.mp ha <;> rfl
  rw [named_eq] at h
  split at h
  · rename_i kind _
    cases h
    show withDefault (b.scalarShape n.facts kind) (b.forced.getD c) = b.forced.getD c
    exact if_neg fun hdefault => hflavor (hasDefault_scalarShape hdefault.1)
  · exact hcollected h
  · exact hcollected h
  · obtain ⟨attributes, -, rfl⟩ := map_eq_ok_iff.mp h
    rfl

/-- The attribute of a parameter is required if the parameter is. -/
theorem computability_parameterAttribute (hflavor : b.flavor ≠ .resource) {name : String}
    {p : Parameter} {schema : Schema} {a : Attribute}
    (h : b.parameterAttribute .argument name p schema = .ok a) :
    a.traits.computability = if p.required then .required else .computedOptional := by
  obtain ⟨node, built, -, hbuilt, rfl⟩ := parameterAttribute_eq_ok_iff.mp h
  have hnamed : built.traits.computability = if p.required then .required else .computedOptional :=
    computability_named (b := { b with forced := none }) hflavor (mapError_eq_ok_iff.mp hbuilt)
  split
  · rw [Attribute.traits_mapTraits]
    exact hnamed
  · exact hnamed

/-- The attributes of parameters, as far as they are told by the parameters. -/
theorem map_parameterAttributes (hflavor : b.flavor ≠ .resource) {options : SchemaOptions}
    {parameters : List Parameter} {attributes : List Attribute}
    (h : b.parameterAttributes .argument options parameters = .ok attributes) :
    attributes.map (fun a => (a.name, a.traits.computability)) =
      (parameters.filter options.takes).map fun p =>
        (parameterName options.attributes.aliases p,
          if p.required then .required else .computedOptional) := by
  induction parameters generalizing attributes with
  | nil =>
    cases h
    rfl
  | cons p rest ih =>
    rcases parameterAttributes_cons_eq_ok h with
      ⟨htakes, hrest⟩ | ⟨htakes, schema, a, later, -, ha, hlater, rfl⟩
    · rw [List.filter_cons_of_neg (by simpa using htakes)]
      exact ih hrest
    · rw [List.filter_cons_of_pos htakes, List.map_cons, List.map_cons, ih hlater,
        name_parameterAttribute ha, computability_parameterAttribute hflavor ha]

end Builder

/-- The attributes of parameters are required at the names of required
parameters. -/
theorem exists_required_iff {options : SchemaOptions} {parameters : List Parameter}
    {attributes : List Attribute}
    (h : attributes.map (fun a => (a.name, a.traits.computability)) =
      (parameters.filter options.takes).map fun p =>
        (Builder.parameterName options.attributes.aliases p,
          if p.required then .required else .computedOptional)) {name : String} :
    (∃ a ∈ attributes, a.name = name ∧ a.traits.computability = .required) ↔
      ∃ p ∈ parameters, options.takes p = true ∧ p.required = true ∧
        Builder.parameterName options.attributes.aliases p = name := by
  have hattributes : (∃ a ∈ attributes, a.name = name ∧ a.traits.computability = .required) ↔
      (name, Computability.required) ∈
        attributes.map fun a => (a.name, a.traits.computability) := by
    simp only [List.mem_map, Prod.mk.injEq]
  rw [hattributes, h, List.mem_map]
  constructor
  · rintro ⟨p, hp, heq⟩
    obtain ⟨hname, hrequired⟩ := Prod.mk.inj heq
    obtain ⟨hp, htakes⟩ := List.mem_filter.mp hp
    refine ⟨p, hp, htakes, ?_, hname⟩
    by_contra hnot
    rw [if_neg hnot] at hrequired
    cases hrequired
  · rintro ⟨p, hp, htakes, hrequired, hname⟩
    exact ⟨p, List.mem_filter.mpr ⟨hp, htakes⟩, by rw [hname, if_pos hrequired]⟩

/-- Overrides do not touch what attributes extend. -/
theorem Attribute.Extends.applyOverrides {P : Attribute → Prop} (hP : KeptByAssembly P)
    (overrides : List (String × AttributeOverride)) {target attributes : List Attribute}
    (h : Extends (Each P) target attributes) :
    Extends (Each P) target (applyOverrides overrides attributes) := by
  refine applyOverrides_induction (P := Extends (Each P) target) ?_ overrides h
  intro description names attributes hextends
  have hchanges : Traits.ChangesTexts fun t => { t with description := some description } :=
    fun _ => rfl
  exact hextends.updateTraits hP.children (hP.texts _ hchanges) (fun _ => rfl) names

namespace Source

variable {s : Source}

/-- The attributes of a data source with some parameters: `arguments` are the
attributes that the parameters contribute. -/
structure ArgumentsFirst (options : SchemaOptions) (parameters : List Parameter)
    (arguments attributes : List Attribute) : Prop where
  /-- A required parameter is a required attribute. -/
  required : ∀ p ∈ parameters, options.takes p = true → p.required = true →
    ∃ a ∈ attributes, a.name = Builder.parameterName options.attributes.aliases p ∧
      a.traits.computability = .required
  /-- An attribute at the top is only required if a parameter of its name is. -/
  of_required : ∀ a ∈ attributes, a.traits.computability = .required →
    ∃ p ∈ parameters, options.takes p = true ∧ p.required = true ∧
      a.name = Builder.parameterName options.attributes.aliases p
  /-- What only the response contributes to a path is computed. -/
  computed : ∀ path a, StandsAt attributes path a → (∀ b, ¬ StandsAt arguments path b) →
    a.traits.computability = .computed
  /-- The arguments come first, and what is added has other names. -/
  first : ∃ own new, attributes = own ++ new ∧
    own.map Attribute.name = argumentNames options parameters ∧
      ∀ a ∈ new, a.name ∉ argumentNames options parameters
  /-- So it is at every level, and the arguments are set by whom they were. -/
  extends_arguments : Extends (Each Attribute.IsComputed) arguments attributes

/-- What parameters and a response contribute is put together with the
arguments first, and overrides leave it so. -/
theorem argumentsFirst {name : String} {c : DataSourceConfiguration} {o : ExploredOperation}
    {parameters response : List Attribute}
    (h : s.dataSourceContributions name c o = .ok (parameters, response)) :
    ArgumentsFirst c.schema o.parameters parameters
      (applyOverrides c.schema.attributes.overrides (mergeAttributes parameters [response])) := by
  obtain ⟨hparameters, schema, node, -, -, hresponse⟩ := dataSourceContributions_eq_ok_iff.mp h
  have hbuilt := mapError_eq_ok_iff.mp hparameters
  have hnames := Builder.map_name_parameterAttributes hbuilt
  have harguments := Builder.map_parameterAttributes Flavor.noConfusion hbuilt
  have hcomputed : ∀ a ∈ response, a.Each Attribute.IsComputed :=
    each_responseAttributes (Builder.makes_isComputed rfl) hresponse
  have hextends : Extends (Each Attribute.IsComputed) parameters
      (applyOverrides c.schema.attributes.overrides (mergeAttributes parameters [response])) :=
    (Extends.mergeAll keptByAssembly_isComputed.merge hcomputed).applyOverrides
      keptByAssembly_isComputed _
  generalize applyOverrides c.schema.attributes.overrides
    (mergeAttributes parameters [response]) = attributes at hextends ⊢
  obtain ⟨own, new, rfl, hown, hnew⟩ := hextends.exists_append
  have hownNames : own.map Attribute.name = parameters.map Attribute.name :=
    Attribute.map_eq_of_keeps (fun _ _ hkeeps => hkeeps.name) hown
  have hownArguments : own.map (fun a => (a.name, a.traits.computability)) =
      parameters.map fun a => (a.name, a.traits.computability) :=
    Attribute.map_eq_of_keeps (fun _ _ hkeeps => Prod.ext hkeeps.name hkeeps.computability) hown
  rw [harguments] at hownArguments
  refine ⟨?_, ?_, ?_, ?_, hextends⟩
  · intro p hp htakes hrequired
    obtain ⟨a, ha, hname, hcomputability⟩ :=
      (exists_required_iff hownArguments).mpr ⟨p, hp, htakes, hrequired, rfl⟩
    exact ⟨a, List.mem_append_left _ ha, hname, hcomputability⟩
  · intro a ha hrequired
    rcases List.mem_append.mp ha with ha | ha
    · obtain ⟨p, hp, htakes, hp', hname⟩ :=
        (exists_required_iff hownArguments).mp ⟨a, ha, rfl, hrequired⟩
      exact ⟨p, hp, htakes, hp', hname.symm⟩
    · have hcomputed : a.traits.computability = .computed := (hnew a ha).1.own
      rw [hrequired] at hcomputed
      cases hcomputed
  · intro path a ha hnone
    rcases hextends.exists_of_standsAt ha with ⟨b, hb, -⟩ | hcomputed
    · exact absurd hb (hnone b)
    · exact hcomputed
  · refine ⟨own, new, rfl, hownNames.trans hnames, ?_⟩
    intro a ha
    rw [← hnames]
    exact (hnew a ha).2

end Source

/-! ## All data sources -/

/-- Every data source that is generated starts with its arguments, and all that
its response adds to them is computed. -/
theorem argumentsFirst_of_generate_eq_ok {d : Description} {c : Configuration}
    {lines : Option LineIndex} {g : Generated} (h : generate d c lines = .ok g) :
    ∀ e ∈ g.specification.dataSources, ∃ config o parameters response,
      (e.name, config) ∈ c.dataSources ∧
        (Source.ofDescription d lines).operation e.name "read" config.read = .ok o ∧
          (Source.ofDescription d lines).dataSourceContributions e.name config o =
              .ok (parameters, response) ∧
            Source.ArgumentsFirst config.schema o.parameters parameters e.attributes := by
  intro e he
  obtain ⟨config, hconfig, hattributes⟩ := exists_dataSource_eq_ok_of_generate_eq_ok h he
  obtain ⟨o, parameters, response, ho, hcontributions, heq⟩ :=
    Source.dataSource_eq_ok_iff.mp hattributes
  refine ⟨config, o, parameters, response, hconfig, ho, hcontributions, ?_⟩
  rw [heq]
  exact Source.argumentsFirst hcontributions

/-! ## A data source with arguments of all kinds -/

/-- A house is read by its number, and may be read by its owner.  What is read
has a number too, which is no text, and tells more about the owner. -/
def readHouse : Operation where
  parameters := [
    .inline { name := "number", place := .path, required := true, schema := some textSchema },
    .inline { name := "owner", place := .query, schema := some (objectOfTexts ["name"]) },
    .inline { name := "streetName", place := .query, required := true, schema := some textSchema },
    .inline { name := "trace", place := .header, required := true, schema := some textSchema }]
  responses := [("200", .inline { content := [("application/json",
    { schema := some (.inline { type := some (.single .object), required := ["color"] }
        { properties := [("color", textSchema),
            ("number", .inline { type := some (.single .integer) } {}),
            ("owner", objectOfTexts ["age", "name"])] }) })] })]

/-- A description of houses, which can only be read. -/
def houseDescription : Description where
  openapi := "3.0.0"
  info := { title := "Houses", version := "1" }
  paths := [("/houses/{number}", { get := some readHouse })]

/-- A configuration that calls the name of the street by an alias. -/
def houseConfiguration : Configuration where
  provider := { name := "houses" }
  dataSources := [("house", {
    read := some ⟨"/houses/{number}", "GET"⟩
    schema := { attributes := { aliases := [("streetName", "street")] } } })]

/-- The paths of attributes and of those right below them, and who sets what is
there. -/
def computabilityOfPaths (attributes : List Attribute) : List (List String × Computability) :=
  attributes.flatMap fun a => ([a.name], a.traits.computability) ::
    (a.children?.getD []).map fun b => ([a.name, b.name], b.traits.computability)

/-- The number stays required though the response has another one, and the age
of the owner is computed though the owner is not. -/
theorem argumentsFirst_generate_houses :
    ∃ g, generate houseDescription houseConfiguration none = .ok g ∧
      ∃ e ∈ g.specification.dataSources,
        computabilityOfPaths e.attributes =
          [(["number"], .required), (["owner"], .computedOptional),
            (["owner", "name"], .computedOptional), (["owner", "age"], .computed),
            (["street"], .required), (["color"], .computed)] ∧
        ∃ options parameters arguments,
          Source.ArgumentsFirst options parameters arguments e.attributes := by
  obtain ⟨g, hg, hpaths⟩ := exists_ok_of_toOption_map_eq_some
    (show (generate houseDescription houseConfiguration none).toOption.map (fun g =>
        g.specification.dataSources.map fun e => computabilityOfPaths e.attributes) =
      some [[(["number"], .required), (["owner"], .computedOptional),
        (["owner", "name"], .computedOptional), (["owner", "age"], .computed),
        (["street"], .required), (["color"], .computed)]] by decide +kernel)
  obtain ⟨e, he, hlist⟩ := List.map_eq_singleton_iff.mp hpaths
  have hmem : e ∈ g.specification.dataSources := by
    rw [he]
    exact List.mem_cons_self
  obtain ⟨config, o, arguments, _, -, -, -, hfirst⟩ := argumentsFirst_of_generate_eq_ok hg e hmem
  exact ⟨g, hg, e, hmem, hlist, config.schema, o.parameters, arguments, hfirst⟩

end ProviderSchema
