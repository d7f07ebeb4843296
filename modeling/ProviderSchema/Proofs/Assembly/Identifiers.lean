import ProviderSchema.Configuration.Problems
import ProviderSchema.Proofs.Assembly.UniqueNames
import ProviderSchema.Proofs.Document.Table
import ProviderSchema.Proofs.Text.Identifier

/-!
# Names that are identifiers

Names of attributes and of fields of objects are made of the names of
properties and parameters, and of the name of a data source; what is made of
them are identifiers.  Only a parameter that has an alias contributes an
attribute under a name that is taken as it is, and there is nothing that a
configuration is checked for that makes it an identifier.

So below the attributes of an entry there are no names but identifiers, and
the attributes themselves have them for names if and only if the aliases that
are used are identifiers (`allIdentifiers_of_generate_eq_ok`).
-/

namespace ProviderSchema

open OpenApi

/-- All names are identifiers. -/
def AllIdentifiers (names : List String) : Prop :=
  ∀ name ∈ names, Text.isIdentifier name = true

instance : DecidablePred AllIdentifiers := fun names =>
  inferInstanceAs (Decidable (∀ name ∈ names, Text.isIdentifier name = true))

/-- All names of attributes and fields are identifiers, at every level. -/
abbrev IdentifiersThroughout : List Attribute → Prop := NamesThroughout AllIdentifiers

theorem holdsOfArranged_allIdentifiers : HoldsOfArranged AllIdentifiers where
  arrange table := by
    intro name hname
    obtain ⟨⟨p, a⟩, hmem, rfl⟩ := List.mem_map.mp hname
    rw [(mem_of_mem_arrange hmem).1]
    exact Text.isIdentifier_identifier p.original
  sublist hsublist h name hname := h name (hsublist.subset hname)

theorem keptByMerges_allIdentifiers : KeptByMerges AllIdentifiers := by
  intro target sources htarget hsources
  exact forall_mem_mergeByKey (fun _ _ _ ha _ => ha) htarget hsources

theorem allIdentifiers_singleton_identifier (name : String) :
    AllIdentifiers [Text.identifier name] := by
  simpa [AllIdentifiers] using Text.isIdentifier_identifier name

theorem allIdentifiers_mergeAttributes_iff {target : List Attribute}
    {sources : List (List Attribute)} :
    AllIdentifiers ((mergeAttributes target sources).map Attribute.name) ↔
      ∀ source ∈ target :: sources, AllIdentifiers (source.map Attribute.name) := by
  unfold AllIdentifiers
  simp only [mem_map_name_mergeAttributes]
  exact ⟨fun h source hsource name hname => h name ⟨source, hsource, hname⟩,
    fun h name ⟨source, hsource, hname⟩ => h source hsource name hname⟩

/-! ## Aliases -/

/-- The alias of a parameter, under its name or else under its identifier. -/
def SchemaOptions.alias? (options : SchemaOptions) (p : Parameter) : Option String :=
  (Table.get? options.attributes.aliases p.name).or
    (Table.get? options.attributes.aliases (Text.identifier p.name))

/-- The aliases of the parameters that become attributes. -/
def usedAliases (options : SchemaOptions) (parameters : List Parameter) : List String :=
  (parameters.filter options.takes).filterMap options.alias?

theorem parameterName_eq_getD_alias? (options : SchemaOptions) (p : Parameter) :
    Builder.parameterName options.attributes.aliases p =
      (options.alias? p).getD (Text.identifier p.name) := by
  unfold Builder.parameterName SchemaOptions.alias?
  cases Table.get? options.attributes.aliases p.name <;> rfl

theorem isIdentifier_parameterName_iff {options : SchemaOptions} {p : Parameter} :
    Text.isIdentifier (Builder.parameterName options.attributes.aliases p) = true ↔
      ∀ name, options.alias? p = some name → Text.isIdentifier name = true := by
  rw [parameterName_eq_getD_alias?]
  cases options.alias? p with
  | none => simp [Text.isIdentifier_identifier]
  | some name => simp

/-- Arguments are called by identifiers if their aliases are identifiers. -/
theorem allIdentifiers_argumentNames_iff {options : SchemaOptions} {parameters : List Parameter} :
    AllIdentifiers (argumentNames options parameters) ↔
      AllIdentifiers (usedAliases options parameters) := by
  unfold AllIdentifiers argumentNames usedAliases
  simp only [List.forall_mem_map, isIdentifier_parameterName_iff, List.mem_filterMap]
  exact ⟨fun h name ⟨p, hp, hname⟩ => h p hp name hname,
    fun h p hp name hname => h name ⟨p, hp, hname⟩⟩

/-- Aliases that are used are among those that are configured. -/
theorem allIdentifiers_usedAliases {options : SchemaOptions}
    (h : AllIdentifiers (options.attributes.aliases.map (·.2))) (parameters : List Parameter) :
    AllIdentifiers (usedAliases options parameters) := by
  intro name hname
  obtain ⟨p, -, halias⟩ := List.mem_filterMap.mp hname
  have hconfigured : ∃ key, (key, name) ∈ options.attributes.aliases := by
    rcases Option.or_eq_some_iff.mp halias with hfound | ⟨-, hfound⟩
    · exact ⟨_, Table.mem_of_get?_eq_some hfound⟩
    · exact ⟨_, Table.mem_of_get?_eq_some hfound⟩
  obtain ⟨key, hmem⟩ := hconfigured
  exact h name (List.mem_map.mpr ⟨(key, name), hmem, rfl⟩)

/-! ## Entries -/

/-- If all contributions but one have identifiers only, and that one has them
below its attributes, then it decides about the entry. -/
theorem identifiersThroughout_merged_iff {target contribution : List Attribute}
    {sources : List (List Attribute)} (hmem : contribution ∈ target :: sources)
    (hcontribution : ∀ a ∈ contribution, a.NamesBelow AllIdentifiers)
    (hothers : ∀ source ∈ target :: sources,
      source = contribution ∨ IdentifiersThroughout source)
    (overrides : List (String × AttributeOverride)) :
    (∀ a ∈ applyOverrides overrides (mergeAttributes target sources),
        a.NamesBelow AllIdentifiers) ∧
      (IdentifiersThroughout (applyOverrides overrides (mergeAttributes target sources)) ↔
        AllIdentifiers (contribution.map Attribute.name)) := by
  have heach : ∀ source ∈ target :: sources, ∀ a ∈ source, a.NamesBelow AllIdentifiers := by
    intro source hsource
    rcases hothers source hsource with rfl | hthroughout
    · exact hcontribution
    · exact hthroughout.each
  rw [List.forall_mem_cons] at heach
  have hmerged := forall_namesBelow_mergeAttributes keptByMerges_allIdentifiers heach.1 heach.2
  refine ⟨(keepsNames_applyOverrides _ _).2 hmerged, ?_⟩
  rw [IdentifiersThroughout, namesThroughout_applyOverrides_iff _ hmerged]
  constructor
  · intro hthroughout
    exact allIdentifiers_mergeAttributes_iff.mp hthroughout.names contribution hmem
  · intro hidentifiers
    refine ⟨allIdentifiers_mergeAttributes_iff.mpr fun source hsource => ?_, hmerged⟩
    rcases hothers source hsource with rfl | hthroughout
    · exact hidentifiers
    · exact hthroughout.names

namespace Source

variable {s : Source}

theorem identifiersThroughout_resource_iff {name : String} {c : ResourceConfiguration}
    {attributes : List Attribute} (h : s.resource name c = .ok attributes) :
    (∀ a ∈ attributes, a.NamesBelow AllIdentifiers) ∧
      ∃ o, s.resourceOperations name c = .ok o ∧
        (IdentifiersThroughout attributes ↔
          AllIdentifiers (usedAliases c.schema o.read.parameters)) := by
  obtain ⟨o, primary, others, hoperations, hcontributions, rfl⟩ := resource_eq_ok_iff.mp h
  obtain ⟨hprimary, bodies, parameters, rfl, hbodies, hnames, hparameters⟩ :=
    names_resourceContributions holdsOfArranged_allIdentifiers hcontributions
  have hothers : ∀ source ∈ primary :: (bodies ++ [parameters]),
      source = parameters ∨ IdentifiersThroughout source := by
    intro source hsource
    rw [List.mem_cons, List.mem_append, List.mem_singleton] at hsource
    rcases hsource with rfl | hsource | rfl
    · exact .inr hprimary
    · exact .inr (hbodies source hsource)
    · exact .inl rfl
  obtain ⟨hbelow, hiff⟩ := identifiersThroughout_merged_iff (by simp) hparameters hothers
    c.schema.attributes.overrides
  rw [hnames, allIdentifiers_argumentNames_iff] at hiff
  exact ⟨hbelow, o, hoperations, hiff⟩

theorem identifiersThroughout_dataSource_iff {name : String} {c : DataSourceConfiguration}
    {attributes : List Attribute} (h : s.dataSource name c = .ok attributes) :
    (∀ a ∈ attributes, a.NamesBelow AllIdentifiers) ∧
      ∃ o, s.operation name "read" c.read = .ok o ∧
        (IdentifiersThroughout attributes ↔
          AllIdentifiers (usedAliases c.schema o.parameters)) := by
  obtain ⟨o, parameters, response, hoperation, hcontributions, rfl⟩ := dataSource_eq_ok_iff.mp h
  obtain ⟨hnames, hparameters, hresponse⟩ :=
    names_dataSourceContributions holdsOfArranged_allIdentifiers
      (allIdentifiers_singleton_identifier name) hcontributions
  have hothers : ∀ source ∈ parameters :: [response],
      source = parameters ∨ IdentifiersThroughout source := by
    simpa using .inr hresponse
  obtain ⟨hbelow, hiff⟩ := identifiersThroughout_merged_iff List.mem_cons_self hparameters hothers
    c.schema.attributes.overrides
  rw [hnames, allIdentifiers_argumentNames_iff] at hiff
  exact ⟨hbelow, o, hoperation, hiff⟩

end Source

/-! ## Generated schemas -/

/-- In what is generated all names are identifiers, but for those of the
attributes of an entry for whose parameters there are other aliases. -/
theorem allIdentifiers_of_generate_eq_ok {d : Description} {c : Configuration}
    {lines : Option LineIndex} {g : Generated} (h : generate d c lines = .ok g) :
    (∀ attributes, g.specification.provider.attributes = some attributes →
        IdentifiersThroughout attributes) ∧
      (∀ e ∈ g.specification.resources,
        (∀ a ∈ e.attributes, a.NamesBelow AllIdentifiers) ∧
          ∃ config o, (e.name, config) ∈ c.resources ∧
            (Source.ofDescription d lines).resourceOperations e.name config = .ok o ∧
              (IdentifiersThroughout e.attributes ↔
                AllIdentifiers (usedAliases config.schema o.read.parameters))) ∧
      ∀ e ∈ g.specification.dataSources,
        (∀ a ∈ e.attributes, a.NamesBelow AllIdentifiers) ∧
          ∃ config o, (e.name, config) ∈ c.dataSources ∧
            (Source.ofDescription d lines).operation e.name "read" config.read = .ok o ∧
              (IdentifiersThroughout e.attributes ↔
                AllIdentifiers (usedAliases config.schema o.parameters)) := by
  refine ⟨fun attributes => Source.namesThroughout_provider holdsOfArranged_allIdentifiers
    (provider_eq_ok_of_generate_eq_ok h), ?_, ?_⟩
  · intro e he
    obtain ⟨config, hconfig, hattributes⟩ := exists_resource_eq_ok_of_generate_eq_ok h he
    obtain ⟨hbelow, o, ho, hiff⟩ := Source.identifiersThroughout_resource_iff hattributes
    exact ⟨hbelow, config, o, hconfig, ho, hiff⟩
  · intro e he
    obtain ⟨config, hconfig, hattributes⟩ := exists_dataSource_eq_ok_of_generate_eq_ok h he
    obtain ⟨hbelow, o, ho, hiff⟩ := Source.identifiersThroughout_dataSource_iff hattributes
    exact ⟨hbelow, config, o, hconfig, ho, hiff⟩

/-! ## A parameter with an alias -/

/-- A pet is read by its number, and has a name. -/
def petDescription : Description where
  openapi := "3.0.0"
  info := { title := "Pets", version := "1" }
  paths := [("/pet", { get := some {
    parameters := [.inline { name := "petId", place := .query, schema := some textSchema }]
    responses := [("200", .inline { content := [("application/json",
      { schema := some (.inline { type := some (.single .object) }
        { properties := [("petName", textSchema)] }) })] })] } })]

/-- The number of a pet is called by an alias. -/
def petConfiguration (numberAlias : String) : Configuration where
  provider := { name := "pets" }
  dataSources := [("pet", {
    read := some ⟨"/pet", "GET"⟩
    schema := { attributes := { aliases := [("petId", numberAlias)] } } })]

/-- An alias that is an identifier stands where the identifier of the name
would. -/
theorem allIdentifiers_generate_pet :
    ∃ g, generate petDescription (petConfiguration "id") none = .ok g ∧
      ∃ e ∈ g.specification.dataSources,
        e.attributes.map Attribute.name = ["id", "pet_name"] ∧
          IdentifiersThroughout e.attributes := by
  obtain ⟨g, hg, hentries⟩ := exists_ok_of_toOption_map_eq_some
    (show (generate petDescription (petConfiguration "id") none).toOption.map (fun g =>
        g.specification.dataSources.map fun e => e.attributes.map Attribute.name) =
      some [["id", "pet_name"]] by decide +kernel)
  obtain ⟨e, he, hnames⟩ := List.map_eq_singleton_iff.mp hentries
  have hmem : e ∈ g.specification.dataSources := by rw [he]; exact List.mem_cons_self
  obtain ⟨-, config, o, hconfig, -, hiff⟩ := (allIdentifiers_of_generate_eq_ok hg).2.2 e hmem
  have haliases : config.schema.attributes.aliases = [("petId", "id")] := by
    rw [(Prod.mk.inj (List.mem_singleton.mp hconfig)).2]
  refine ⟨g, hg, e, hmem, hnames, hiff.mpr (allIdentifiers_usedAliases ?_ _)⟩
  rw [haliases]
  decide

/-- A valid configuration may have an alias that is no identifier. -/
theorem not_forall_identifiersThroughout_generate :
    ¬ ∀ (d : Description) (c : Configuration) (lines : Option LineIndex) (g : Generated),
      c.isValid = true → generate d c lines = .ok g →
        (∀ attributes, g.specification.provider.attributes = some attributes →
            IdentifiersThroughout attributes) ∧
          (∀ e ∈ g.specification.resources, IdentifiersThroughout e.attributes) ∧
          ∀ e ∈ g.specification.dataSources, IdentifiersThroughout e.attributes := by
  intro h
  have hvalid : (petConfiguration "Pet Id!").isValid = true := by decide +kernel
  have hpet := (h petDescription (petConfiguration "Pet Id!") none _ hvalid rfl).2.2 _
    List.mem_cons_self
  revert hpet
  decide +kernel

end ProviderSchema
