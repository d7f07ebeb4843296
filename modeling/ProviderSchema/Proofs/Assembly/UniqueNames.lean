import ProviderSchema.Proofs.Assembly.ContributedNames

/-!
# Names in generated schemas

In the schemas of a provider and of its resources no list of attributes, and
no object, has a name twice.  The attributes of a resource start with those of
a body, and whatever is merged into them is added under new names only, the
parameters included.

The attributes of a data source start with its parameters.  Below them all
names are unique, but two parameters may have one name, in a path and in a
query for example, and then so have two attributes of the data source
(`uniqueNames_dataSource_iff`).
-/

namespace ProviderSchema

open OpenApi

namespace Source

variable {s : Source}

theorem uniqueNames_resource {name : String} {c : ResourceConfiguration}
    {attributes : List Attribute} (h : s.resource name c = .ok attributes) :
    UniqueNames attributes := by
  obtain ⟨o, primary, others, -, hcontributions, rfl⟩ := resource_eq_ok_iff.mp h
  obtain ⟨hprimary, bodies, parameters, rfl, hbodies, -, hparameters⟩ :=
    names_resourceContributions holdsOfArranged_nodup hcontributions
  have hmerged : UniqueNames (mergeAttributes primary (bodies ++ [parameters])) := by
    refine UniqueNames.mergeAttributes hprimary ?_
    intro source hsource
    rw [List.mem_append, List.mem_singleton] at hsource
    rcases hsource with hsource | rfl
    · exact (hbodies source hsource).each
    · exact hparameters
  exact (namesThroughout_applyOverrides_iff _ hmerged.each).mpr hmerged

/-- Names are unique below the attributes of a data source; at the top they
are if no two arguments have one name. -/
theorem uniqueNames_dataSource_iff {name : String} {c : DataSourceConfiguration}
    {attributes : List Attribute} (h : s.dataSource name c = .ok attributes) :
    (∀ a ∈ attributes, a.NamesBelow List.Nodup) ∧
      ∃ o, s.operation name "read" c.read = .ok o ∧
        (UniqueNames attributes ↔ (argumentNames c.schema o.parameters).Nodup) := by
  obtain ⟨o, parameters, response, hoperation, hcontributions, rfl⟩ := dataSource_eq_ok_iff.mp h
  obtain ⟨hnames, hparameters, hresponse⟩ :=
    names_dataSourceContributions holdsOfArranged_nodup (List.nodup_singleton _) hcontributions
  have hbelow : ∀ a ∈ mergeAttributes parameters [response], a.NamesBelow List.Nodup :=
    forall_namesBelow_mergeAll keptByMerges_nodup hparameters hresponse.each
  refine ⟨(keepsNames_applyOverrides _ _).2 hbelow, o, hoperation, ?_⟩
  rw [UniqueNames, namesThroughout_applyOverrides_iff _ hbelow, ← hnames]
  constructor
  · intro hunique
    -- The parameters come first in the merge, so their names are a part of its names.
    have hprefix := map_key_prefix_mergeByKey Attribute.name_merge parameters response
    rw [← Attribute.mergeAll_eq_mergeByKey] at hprefix
    exact hunique.names.sublist hprefix.sublist
  · intro hnodup
    refine UniqueNames.mergeAttributes ⟨hnodup, hparameters⟩ ?_
    intro source hsource
    rw [List.mem_singleton] at hsource
    rw [hsource]
    exact hresponse.each

end Source

/-! ## All entries -/

/-- In what is generated all names are unique, but for those of the attributes
of a data source that has two arguments of one name. -/
theorem uniqueNames_of_generate_eq_ok {d : Description} {c : Configuration}
    {lines : Option LineIndex} {g : Generated} (h : generate d c lines = .ok g) :
    (∀ attributes, g.specification.provider.attributes = some attributes →
        UniqueNames attributes) ∧
      (∀ e ∈ g.specification.resources, UniqueNames e.attributes) ∧
      ∀ e ∈ g.specification.dataSources,
        (∀ a ∈ e.attributes, a.NamesBelow List.Nodup) ∧
          ∃ config o, (e.name, config) ∈ c.dataSources ∧
            (Source.ofDescription d lines).operation e.name "read" config.read = .ok o ∧
              (UniqueNames e.attributes ↔ (argumentNames config.schema o.parameters).Nodup) := by
  unfold generate at h
  dsimp only at h
  split at h
  · cases h
  · rename_i provider hprovider
    cases h
    refine ⟨fun attributes => ?_, ?_, ?_⟩
    · exact Source.namesThroughout_provider holdsOfArranged_nodup hprovider
    · intro e he
      obtain ⟨config, -, hattributes⟩ := mem_generateEntries he
      exact Source.uniqueNames_resource hattributes
    · intro e he
      obtain ⟨config, hconfig, hattributes⟩ := mem_generateEntries he
      obtain ⟨hbelow, o, ho, hiff⟩ := Source.uniqueNames_dataSource_iff hattributes
      exact ⟨hbelow, config, o, hconfig, ho, hiff⟩

/-- Text of any length. -/
def textSchema : Schema := .inline { type := some (.single .string) } {}

/-- An object of texts. -/
def objectOfTexts (names : List String) : Schema :=
  .inline { type := some (.single .object) }
    { properties := names.map fun name => (name, textSchema) }

/-- A thing is read by an identifier in the path, and by another one in the
query. -/
def readThing : Operation where
  parameters := [
    .inline { name := "id", place := .path, required := true, schema := some textSchema },
    .inline { name := "id", place := .query, schema := some textSchema }]
  responses := [("200", .inline { content := [("application/json",
    { schema := some (.inline { type := some (.single .object) }
        { properties := [("name", textSchema)] }) })] })]

/-- A description of things, which can only be read. -/
def thingDescription : Description where
  openapi := "3.0.0"
  info := { title := "Things", version := "1" }
  paths := [("/things", { get := some readThing })]

/-- A configuration with things as a data source. -/
def thingConfiguration : Configuration where
  provider := { name := "things" }
  dataSources := [("thing", { read := some ⟨"/things", "GET"⟩ })]

/-- The two identifiers become two attributes of one name. -/
theorem repeatedName_generate_things :
    ∃ g, generate thingDescription thingConfiguration none = .ok g ∧
      (∀ e ∈ g.specification.dataSources, ∀ a ∈ e.attributes, a.NamesBelow List.Nodup) ∧
      ∃ e ∈ g.specification.dataSources, ¬ UniqueNames e.attributes := by
  refine ⟨_, rfl, ?_, ?_⟩
  · intro e he
    exact ((uniqueNames_of_generate_eq_ok (d := thingDescription) (c := thingConfiguration) rfl).2.2
      e he).1
  · refine ⟨_, List.mem_cons_self, ?_⟩
    decide

end ProviderSchema
