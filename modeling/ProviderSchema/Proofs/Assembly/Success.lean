import ProviderSchema.Assembly.Generation
import ProviderSchema.Proofs.Document.Except

/-!
# What success is made of

Every stage of the generation gives up with the error of the first of its steps
that fails.  So it succeeds exactly if all of its steps do, and its result is
made of theirs.  There is one lemma for each stage, and what is said about a
stage follows from what is said about its steps.
-/

namespace ProviderSchema

open OpenApi

namespace Builder

variable {b : Builder}

/-! ## Contributions -/

/-- A body contributes the attributes of its schema, or nothing if it may be
missing and is. -/
theorem bodyAttributes_eq_ok_iff {body : Body} {attributes : List Attribute} :
    b.bodyAttributes body = .ok attributes ↔
      (∃ schema node, body.schema = .ok schema ∧ schema.node = .ok node ∧
          Builder.attributes { b with forced := body.forced } node = .ok attributes) ∨
        ∃ e, body.schema = .error e ∧ body.mayBeMissing = true ∧ e.isNotFound = true ∧
          attributes = [] := by
  rw [bodyAttributes, mapError_eq_ok_iff]
  cases hschema : body.schema with
  | ok schema =>
    dsimp only
    rw [schemaAttributes]
    cases hnode : schema.node with
    | error e => simp [hnode]
    | ok node => simp [hnode]
  | error e =>
    dsimp only
    cases hmissing : body.mayBeMissing <;> cases hfound : e.isNotFound <;>
      simp [hfound, @eq_comm _ [] attributes]

/-- A parameter contributes the attribute of its schema, which is deprecated if
the parameter is. -/
theorem parameterAttribute_eq_ok_iff {role : ParameterRole} {name : String} {p : Parameter}
    {schema : Schema} {a : Attribute} :
    b.parameterAttribute role name p schema = .ok a ↔
      ∃ node built, schema.node = .ok node ∧
        Builder.attributeNamed { b with forced := (parameterComputability role p).1 } name
            (node.describedBy p.description) (parameterComputability role p).2 = .ok built ∧
          a = if p.deprecated = some true then
            built.mapTraits fun t => { t with deprecation := some deprecationMessage }
          else built := by
  rw [parameterAttribute]
  cases hnode : schema.node with
  | error e => simp
  | ok node =>
    dsimp only
    cases hbuilt : Builder.attributeNamed { b with forced := (parameterComputability role p).1 }
        name (node.describedBy p.description) (parameterComputability role p).2 with
    | error e => simp [hbuilt]
    | ok built => simp [hbuilt, eq_comm]

end Builder

namespace Source

variable {s : Source}

/-! ## The provider -/

/-- A provider has the attributes of the component that its reference names, if
there is a reference. -/
theorem provider_eq_ok_iff {c : ProviderConfiguration} {entry : ProviderEntry} :
    s.provider c = .ok entry ↔
      entry.name = c.name ∧
        ((c.schemaReference = none ∧ entry.attributes = none) ∨
          ∃ target name node attributes, c.schemaReference = some target ∧
            Reference.name "schemas" target = .ok name ∧ s.providerNode name target = .ok node ∧
              (s.providerBuilder c).attributes node = .ok attributes ∧
                entry.attributes = some attributes) := by
  obtain ⟨entryName, entryAttributes⟩ := entry
  unfold provider
  cases hreference : c.schemaReference with
  | none => simp [eq_comm]
  | some target =>
    dsimp only
    cases hname : Reference.name "schemas" target with
    | error e => simp [hname]
    | ok name =>
      dsimp only
      cases hnode : s.providerNode name target with
      | error e => simp [hname, hnode, Except.bind]
      | ok node =>
        cases hattributes : (s.providerBuilder c).attributes node with
        | error e => simp [hname, hnode, hattributes, Except.bind]
        | ok attributes => simp [hname, hnode, hattributes, Except.bind, eq_comm]

/-! ## Resources -/

theorem resourceContributions_eq_ok_iff {c : ResourceConfiguration} {o : ResourceOperations}
    {primary : List Attribute} {others : List (List Attribute)} :
    s.resourceContributions c o = .ok (primary, others) ↔
      (s.entryBuilder .resource c.schema).bodyAttributes o.primary = .ok primary ∧
        ∃ bodies parameters,
          o.others.mapM (s.entryBuilder .resource c.schema).bodyAttributes = .ok bodies ∧
            (s.entryBuilder .resource c.schema).operationParameters .lookup c.schema o.read =
                .ok parameters ∧
              others = bodies ++ [parameters] := by
  constructor
  · intro h
    unfold resourceContributions at h
    dsimp only at h
    split at h
    · cases h
    rename_i hprimary
    split at h
    · cases h
    rename_i bodies hbodies
    split at h
    · cases h
    rename_i parameters hparameters
    cases h
    exact ⟨hprimary, bodies, parameters, hbodies, hparameters, rfl⟩
  · rintro ⟨hprimary, bodies, parameters, hbodies, hparameters, rfl⟩
    unfold resourceContributions
    dsimp only
    rw [hprimary, hbodies, hparameters]

theorem resource_eq_ok_iff {name : String} {c : ResourceConfiguration}
    {attributes : List Attribute} :
    s.resource name c = .ok attributes ↔
      ∃ o primary others, s.resourceOperations name c = .ok o ∧
        s.resourceContributions c o = .ok (primary, others) ∧
          attributes =
            applyOverrides c.schema.attributes.overrides (mergeAttributes primary others) := by
  constructor
  · intro h
    unfold resource at h
    split at h
    · cases h
    rename_i o hoperations
    split at h
    · cases h
    rename_i primary others hcontributions
    cases h
    exact ⟨o, primary, others, hoperations, hcontributions, rfl⟩
  · rintro ⟨o, primary, others, hoperations, hcontributions, rfl⟩
    unfold resource
    rw [hoperations]
    dsimp only
    rw [hcontributions]

/-! ## Data sources -/

theorem dataSourceContributions_eq_ok_iff {name : String} {c : DataSourceConfiguration}
    {o : ExploredOperation} {parameters response : List Attribute} :
    s.dataSourceContributions name c o = .ok (parameters, response) ↔
      (s.entryBuilder .dataSource c.schema).operationParameters .argument c.schema o =
          .ok parameters ∧
        ∃ schema node, o.responseSchema = .ok schema ∧ schema.node = .ok node ∧
          responseAttributes { s.entryBuilder .dataSource c.schema with forced := some .computed }
            name node = .ok response := by
  constructor
  · intro h
    unfold dataSourceContributions at h
    dsimp only at h
    split at h
    · cases h
    rename_i hparameters
    cases hschema : o.responseSchema with
    | error e =>
      rw [hschema] at h
      cases h
    | ok schema =>
      cases hnode : schema.node with
      | error e =>
        rw [hschema, Except.bind, hnode] at h
        cases h
      | ok node =>
        rw [hschema, Except.bind, hnode] at h
        dsimp only at h
        split at h
        · cases h
        rename_i hresponse
        cases h
        exact ⟨hparameters, schema, node, rfl, hnode, hresponse⟩
  · rintro ⟨hparameters, schema, node, hschema, hnode, hresponse⟩
    unfold dataSourceContributions
    dsimp only
    rw [hparameters, hschema, Except.bind, hnode]
    dsimp only
    rw [hresponse]

theorem dataSource_eq_ok_iff {name : String} {c : DataSourceConfiguration}
    {attributes : List Attribute} :
    s.dataSource name c = .ok attributes ↔
      ∃ o parameters response, s.operation name "read" c.read = .ok o ∧
        s.dataSourceContributions name c o = .ok (parameters, response) ∧
          attributes = applyOverrides c.schema.attributes.overrides
            (mergeAttributes parameters [response]) := by
  constructor
  · intro h
    unfold dataSource at h
    split at h
    · cases h
    rename_i o hoperation
    split at h
    · cases h
    rename_i parameters response hcontributions
    cases h
    exact ⟨o, parameters, response, hoperation, hcontributions, rfl⟩
  · rintro ⟨o, parameters, response, hoperation, hcontributions, rfl⟩
    unfold dataSource
    rw [hoperation]
    dsimp only
    rw [hcontributions]

end Source

/-! ## All entries -/

/-- A generated entry is made of what is configured for it. -/
theorem mem_generateEntries {α : Type} {kind : EntryKind}
    {attributes : String → α → Except GenerationError (List Attribute)}
    {configs : List (String × α)} {e : SchemaEntry}
    (h : e ∈ (generateEntries kind attributes configs).1) :
    ∃ config, (e.name, config) ∈ configs ∧ attributes e.name config = .ok e.attributes := by
  induction configs with
  | nil => cases h
  | cons entry rest ih =>
    obtain ⟨name, config⟩ := entry
    rw [generateEntries] at h
    dsimp only at h
    cases hbuilt : attributes name config with
    | error _ =>
      rw [hbuilt] at h
      obtain ⟨config', hmem, hattributes⟩ := ih h
      exact ⟨config', List.mem_cons_of_mem _ hmem, hattributes⟩
    | ok built =>
      rw [hbuilt] at h
      rcases List.mem_cons.mp h with rfl | h
      · exact ⟨config, List.mem_cons_self, hbuilt⟩
      · obtain ⟨config', hmem, hattributes⟩ := ih h
        exact ⟨config', List.mem_cons_of_mem _ hmem, hattributes⟩

/-- Only the schema of the provider can make the generation fail. -/
theorem generate_eq_ok_iff {d : Description} {c : Configuration} {lines : Option LineIndex}
    {g : Generated} :
    generate d c lines = .ok g ↔
      (Source.ofDescription d lines).provider c.provider = .ok g.specification.provider ∧
        ∃ skippedResources skippedSources,
          generateEntries .resource (Source.ofDescription d lines).resource c.resources =
              (g.specification.resources, skippedResources) ∧
            generateEntries .dataSource (Source.ofDescription d lines).dataSource c.dataSources =
                (g.specification.dataSources, skippedSources) ∧
              g.skipped = skippedResources ++ skippedSources ∧
                g.specification.version = specificationVersion := by
  obtain ⟨⟨version, provider, resources, dataSources⟩, skipped⟩ := g
  constructor
  · intro h
    unfold generate at h
    dsimp only at h
    split at h
    · cases h
    rename_i hprovider
    cases h
    exact ⟨hprovider, _, _, rfl, rfl, rfl, rfl⟩
  · rintro ⟨hprovider, skippedResources, skippedSources, hresources, hdataSources, rfl, rfl⟩
    unfold generate
    dsimp only
    rw [hprovider, hresources, hdataSources]

section Generated

variable {d : Description} {c : Configuration} {lines : Option LineIndex} {g : Generated}
  {e : SchemaEntry}

theorem provider_eq_ok_of_generate_eq_ok (h : generate d c lines = .ok g) :
    (Source.ofDescription d lines).provider c.provider = .ok g.specification.provider :=
  (generate_eq_ok_iff.mp h).1

theorem exists_resource_eq_ok_of_generate_eq_ok (h : generate d c lines = .ok g)
    (he : e ∈ g.specification.resources) :
    ∃ config, (e.name, config) ∈ c.resources ∧
      (Source.ofDescription d lines).resource e.name config = .ok e.attributes := by
  obtain ⟨-, _, _, hresources, -, -⟩ := generate_eq_ok_iff.mp h
  exact mem_generateEntries (by rw [hresources]; exact he)

theorem exists_dataSource_eq_ok_of_generate_eq_ok (h : generate d c lines = .ok g)
    (he : e ∈ g.specification.dataSources) :
    ∃ config, (e.name, config) ∈ c.dataSources ∧
      (Source.ofDescription d lines).dataSource e.name config = .ok e.attributes := by
  obtain ⟨-, _, _, -, hdataSources, -⟩ := generate_eq_ok_iff.mp h
  exact mem_generateEntries (by rw [hdataSources]; exact he)

end Generated

end ProviderSchema
