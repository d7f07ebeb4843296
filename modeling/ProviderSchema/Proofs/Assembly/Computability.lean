import ProviderSchema.Proofs.Assembly.UniqueNames
import ProviderSchema.Proofs.Attribute.Precedence
import ProviderSchema.Proofs.Node.BuiltComputability

/-!
# Who sets the attributes of a resource

The body that a resource is created from decides what is required: its
attributes stay as they are, at every level, and no other attribute is
required.  Attributes that only responses have are computed; those that only
the update or the parameters have may be given or computed.  Nothing is
merely optional.

`DecidedByPriority` says so path by path.  Where several sources have an
attribute, the first one decides that reaches its path: of the sources that
have other variants on the way there none counts.
-/

namespace ProviderSchema

open OpenApi Attribute

/-! ## Where attributes come from -/

/-- Where the attributes of a resource come from, apart from the body that it
is created from. -/
inductive ResourceSource where
  | createResponse
  | readResponse
  | updateRequest
  | readParameter
deriving DecidableEq, Repr

/-- Responses are computed; what updates and parameters say may be given. -/
def ResourceSource.computability : ResourceSource → Computability
  | .createResponse | .readResponse => .computed
  | .updateRequest | .readParameter => .computedOptional

/-- What the operations of a resource contribute to it. -/
structure Source.ResourceContributions (s : Source) (c : ResourceConfiguration)
    (o : ResourceOperations) where
  create : List Attribute
  createResponse : List Attribute
  readResponse : List Attribute
  update : Option (List Attribute)
  parameters : List Attribute
  create_eq : (s.entryBuilder .resource c.schema).bodyAttributes o.primary = .ok create
  bodies_eq : o.others.mapM (s.entryBuilder .resource c.schema).bodyAttributes =
    .ok ([createResponse, readResponse] ++ update.toList)
  parameters_eq : (s.entryBuilder .resource c.schema).operationParameters .lookup c.schema o.read =
    .ok parameters

/-- The contributions in order of priority.  Each parameter is one of its own,
since several may have one name. -/
def Source.ResourceContributions.sources {s : Source} {c : ResourceConfiguration}
    {o : ResourceOperations} (x : s.ResourceContributions c o) :
    List (ResourceSource × List Attribute) :=
  [(.createResponse, x.createResponse), (.readResponse, x.readResponse)] ++
    x.update.toList.map (Prod.mk .updateRequest) ++
      x.parameters.map fun a => (.readParameter, [a])

/-! ## Deciding by priority -/

/-- The computability of the attribute at a path. -/
def computabilityAt? (path : List String) (attributes : List Attribute) : Option Computability :=
  (findNames? path attributes).map fun a => a.traits.computability

/-- The computability of attributes is that in the body they are created from,
or else that of the first source that reaches them. -/
structure DecidedByPriority (create : List Attribute)
    (sources : List (ResourceSource × List Attribute)) (attributes : List Attribute) : Prop where
  /-- What the body has is there, and is set by whoever sets it there. -/
  kept : ∀ path c, computabilityAt? path create = some c → computabilityAt? path attributes = some c
  /-- What the body does not have is there if a source reaches it, and is set
  as the first one of these sources has it set. -/
  added : ∀ path, computabilityAt? path create = none →
    computabilityAt? path attributes =
      (sources.find? fun source => Reaches attributes source.2 path).map
        fun source => source.1.computability
  required_iff : ∀ path,
    computabilityAt? path attributes = some .required ↔
      computabilityAt? path create = some .required
  not_optional : ∀ path, computabilityAt? path attributes ≠ some .optional
  /-- Every attribute is the one at its path. -/
  unique : UniqueNames attributes

theorem reaches_congr {merged merged' : List Attribute}
    (h : ∀ path, variantAt? path merged' = variantAt? path merged) (source : List Attribute)
    (path : List String) : Reaches merged' source path ↔ Reaches merged source path := by
  unfold Reaches
  simp only [h]

/-- Attributes of the same variants and computability are decided alike. -/
theorem DecidedByPriority.congr {create attributes attributes' : List Attribute}
    {sources : List (ResourceSource × List Attribute)}
    (h : DecidedByPriority create sources attributes)
    (hvariant : ∀ path, variantAt? path attributes' = variantAt? path attributes)
    (hcomputability : ∀ path, computabilityAt? path attributes' = computabilityAt? path attributes)
    (hunique : UniqueNames attributes') : DecidedByPriority create sources attributes' where
  kept := by simpa only [hcomputability] using h.kept
  added := by simpa only [hcomputability, reaches_congr hvariant] using h.added
  required_iff := by simpa only [hcomputability] using h.required_iff
  not_optional := by simpa only [hcomputability] using h.not_optional
  unique := hunique

/-! ## Merges -/

theorem computabilityAt?_eq_some_of_each {P : Computability → Prop} {attributes : List Attribute}
    (h : ∀ a ∈ attributes, a.EachComputability P) {path : List String} {c : Computability}
    (hc : computabilityAt? path attributes = some c) : P c := by
  obtain ⟨a, ha, rfl⟩ := Option.map_eq_some_iff.mp hc
  exact (EachComputability.of_findNames? h ha).own

/-- At a path a merge has the computability that the first list has which
reaches the path. -/
theorem computabilityAt?_mergeAttributes {target : List Attribute}
    {lists : List (List Attribute)} (h : ∀ source ∈ target :: lists, UniqueNames source)
    (path : List String) :
    computabilityAt? path (mergeAttributes target lists) =
      ((target :: lists).find? fun l => Reaches (mergeAttributes target lists) l path).bind
        (computabilityAt? path) := by
  cases ha : findNames? path (mergeAttributes target lists) with
  | none =>
    have hnone : ∀ l ∈ target :: lists, ¬ Reaches (mergeAttributes target lists) l path := by
      intro l hl hreaches
      have hsome := (isSome_findNames?_mergeAttributes h path).mpr ⟨l, hl, hreaches⟩
      rw [ha] at hsome
      cases hsome
    rw [computabilityAt?, ha, List.find?_eq_none.mpr (by simpa using hnone)]
    rfl
  | some a =>
    obtain ⟨l, first, hl, hfirst, -, hcomputability⟩ :=
      exists_first_of_findNames?_mergeAttributes h ha
    rw [hl, Option.bind_some, computabilityAt?, computabilityAt?, ha, hfirst, Option.map_some,
      Option.map_some, hcomputability]

section Sources

variable {create : List Attribute} {sources : List (ResourceSource × List Attribute)}

/-- Sources that have one computability each decide about what they reach
first. -/
theorem bind_computabilityAt?_find? {merged : List Attribute} {path : List String}
    (heach : ∀ source ∈ sources, ∀ a ∈ source.2,
      a.EachComputability (· = source.1.computability)) :
    ((sources.map Prod.snd).find? fun l => Reaches merged l path).bind (computabilityAt? path) =
      (sources.find? fun source => Reaches merged source.2 path).map
        fun source => source.1.computability := by
  rw [List.find?_map]
  change ((sources.find? fun source => Reaches merged source.2 path).map Prod.snd).bind _ = _
  cases hfind : sources.find? fun source => Reaches merged source.2 path with
  | none => rfl
  | some source =>
    have hreaches : Reaches merged source.2 path := by simpa using List.find?_some hfind
    obtain ⟨a, ha⟩ := Option.isSome_iff_exists.mp hreaches.1
    have hown := (EachComputability.of_findNames?
      (heach source (List.mem_of_find?_eq_some hfind)) ha).own
    rw [Option.map_some, Option.map_some, Option.bind_some, computabilityAt?, ha, Option.map_some,
      hown]

theorem ResourceSource.computability_ne (kind : ResourceSource) :
    kind.computability ≠ .required ∧ kind.computability ≠ .optional := by
  cases kind <;> decide

/-- What the body has is merged as the body has it. -/
theorem computabilityAt?_mergeAttributes_of_eq_some
    (hunique : ∀ source ∈ create :: sources.map Prod.snd, UniqueNames source)
    {path : List String} {c : Computability} (hc : computabilityAt? path create = some c) :
    computabilityAt? path (mergeAttributes create (sources.map Prod.snd)) = some c := by
  have hfound : (findNames? path create).isSome := by
    rw [← Option.isSome_map (f := fun a => a.traits.computability)]
    exact Option.isSome_of_eq_some hc
  have hreaches := reaches_target hunique hfound
  rw [computabilityAt?_mergeAttributes hunique, List.find?_cons_of_pos (by simpa using hreaches),
    Option.bind_some, hc]

/-- What the body does not have is merged as the first source sets it that
reaches it. -/
theorem computabilityAt?_mergeAttributes_of_eq_none
    (hunique : ∀ source ∈ create :: sources.map Prod.snd, UniqueNames source)
    (heach : ∀ source ∈ sources, ∀ a ∈ source.2,
      a.EachComputability (· = source.1.computability))
    {path : List String} (hnone : computabilityAt? path create = none) :
    computabilityAt? path (mergeAttributes create (sources.map Prod.snd)) =
      (sources.find? fun source =>
        Reaches (mergeAttributes create (sources.map Prod.snd)) source.2 path).map
          fun source => source.1.computability := by
  have hmissed : ¬ Reaches (mergeAttributes create (sources.map Prod.snd)) create path := by
    rintro ⟨hfound, -⟩
    rw [Option.map_eq_none_iff.mp hnone] at hfound
    cases hfound
  rw [computabilityAt?_mergeAttributes hunique, List.find?_cons_of_neg (by simpa using hmissed),
    bind_computabilityAt?_find? heach]

/-- A merge is decided by priority if every source has one computability only
and the body requires attributes or has them computed. -/
theorem decidedByPriority_mergeAttributes (hcreate : UniqueNames create)
    (hsources : ∀ source ∈ sources, UniqueNames source.2)
    (hbody : ∀ a ∈ create, a.EachComputability fun c => c = .required ∨ c = .computedOptional)
    (heach : ∀ source ∈ sources, ∀ a ∈ source.2,
      a.EachComputability (· = source.1.computability)) :
    DecidedByPriority create sources (mergeAttributes create (sources.map Prod.snd)) := by
  have hunique : ∀ source ∈ create :: sources.map Prod.snd, UniqueNames source := by
    rw [List.forall_mem_cons, List.forall_mem_map]
    exact ⟨hcreate, hsources⟩
  have hkept (path : List String) (c : Computability)
      (hc : computabilityAt? path create = some c) :
      computabilityAt? path (mergeAttributes create (sources.map Prod.snd)) = some c :=
    computabilityAt?_mergeAttributes_of_eq_some hunique hc
  have hadded (path : List String) (hnone : computabilityAt? path create = none) :=
    computabilityAt?_mergeAttributes_of_eq_none hunique heach hnone
  -- No source but the body sets what is required or merely optional.
  have hother : ∀ path c, computabilityAt? path create = none →
      computabilityAt? path (mergeAttributes create (sources.map Prod.snd)) = some c →
        c ≠ .required ∧ c ≠ .optional := by
    intro path c hpath hc
    rw [hadded path hpath] at hc
    obtain ⟨source, -, rfl⟩ := Option.map_eq_some_iff.mp hc
    exact source.1.computability_ne
  refine ⟨hkept, hadded, ?_, ?_, ?_⟩
  · intro path
    refine ⟨fun h => ?_, hkept path .required⟩
    cases hpath : computabilityAt? path create with
    | some c => rw [← h, hkept path c hpath]
    | none => exact absurd rfl (hother path _ hpath h).1
  · intro path h
    cases hpath : computabilityAt? path create with
    | some c =>
      rw [hkept path c hpath] at h
      cases h
      rcases computabilityAt?_eq_some_of_each hbody hpath with h | h <;> cases h
    | none => exact absurd rfl (hother path _ hpath h).2
  · refine hcreate.mergeAttributes ?_
    rw [List.forall_mem_map]
    exact fun source hsource => (hsources source hsource).each

end Sources

/-! ## What is contributed -/

namespace Builder

variable {b : Builder} {P : Computability → Prop}

theorem eachComputability_bodyAttributes {body : Body}
    (hb : Decides { b with forced := body.forced } P) {attributes : List Attribute}
    (h : b.bodyAttributes body = .ok attributes) : ∀ a ∈ attributes, a.EachComputability P := by
  rcases bodyAttributes_eq_ok_iff.mp h with ⟨_, node, -, -, hattributes⟩ | ⟨_, -, -, -, rfl⟩
  · exact eachComputability_attributes hb hattributes
  · simp

/-- What a resource is looked up by may be given or computed. -/
theorem eachComputability_parameterAttribute {name : String} {p : Parameter} {schema : Schema}
    {a : Attribute} (h : b.parameterAttribute .lookup name p schema = .ok a) :
    a.EachComputability (· = .computedOptional) := by
  obtain ⟨node, built, -, hbuilt, rfl⟩ := parameterAttribute_eq_ok_iff.mp h
  have hdecides := decides_of_forced (b := { b with forced := some .computedOptional }) rfl
    ⟨by decide, by decide⟩
  have heach := eachComputability_attributeNamed hdecides rfl hbuilt
  split
  · exact heach.mapTraits fun t => rfl
  · exact heach

end Builder

namespace Source

variable {s : Source} {c : ResourceConfiguration}

/-- There are two responses, and the body of the update if there is an
update. -/
theorem exists_eq_of_forall₂_others {o : ResourceOperations} {bodies : List (List Attribute)}
    {R : Body → List Attribute → Prop} (h : List.Forall₂ R o.others bodies) :
    ∃ createResponse readResponse update,
      bodies = [createResponse, readResponse] ++ Option.toList update := by
  obtain ⟨create, read, update⟩ := o
  obtain ⟨createResponse, later, -, hlater, rfl⟩ := List.forall₂_cons_left_iff.mp h
  obtain ⟨readResponse, updates, -, hupdates, rfl⟩ := List.forall₂_cons_left_iff.mp hlater
  cases update with
  | none =>
    have hnone : updates = [] := List.forall₂_nil_left_iff.mp hupdates
    exact ⟨createResponse, readResponse, none, by rw [hnone]; rfl⟩
  | some update =>
    obtain ⟨body, others, -, hothers, rfl⟩ := List.forall₂_cons_left_iff.mp hupdates
    have hnone : others = [] := List.forall₂_nil_left_iff.mp hothers
    exact ⟨createResponse, readResponse, some body, by rw [hnone]; rfl⟩

/-- A resource is made of its contributions, but for the overrides. -/
theorem exists_contributions_of_resource_eq_ok {name : String} {attributes : List Attribute}
    (h : s.resource name c = .ok attributes) :
    ∃ o, s.resourceOperations name c = .ok o ∧ ∃ x : s.ResourceContributions c o,
      attributes = applyOverrides c.schema.attributes.overrides
        (mergeAttributes x.create (x.sources.map Prod.snd)) := by
  obtain ⟨o, create, others, hoperations, hcontributions, rfl⟩ := resource_eq_ok_iff.mp h
  obtain ⟨hcreate, bodies, parameters, hbodies, hparameters, rfl⟩ :=
    resourceContributions_eq_ok_iff.mp hcontributions
  obtain ⟨createResponse, readResponse, update, rfl⟩ :=
    exists_eq_of_forall₂_others (forall₂_of_mapM_eq_ok hbodies)
  refine ⟨o, hoperations, ⟨create, createResponse, readResponse, update, parameters, hcreate,
    hbodies, hparameters⟩, ?_⟩
  rw [mergeAttributes_append_singletons]
  simp [ResourceContributions.sources, Function.comp_def]

namespace ResourceContributions

variable {o : ResourceOperations}

theorem bodyAttributes_of_forced (kind : ResourceSource) {b : Builder} {body : Body}
    {attributes : List Attribute} (h : b.bodyAttributes body = .ok attributes)
    (hforced : body.forced = some kind.computability) :
    UniqueNames attributes ∧ ∀ a ∈ attributes, a.EachComputability (· = kind.computability) := by
  have hdecides := Builder.decides_of_forced (b := { b with forced := body.forced }) hforced
    kind.computability_ne
  exact ⟨namesThroughout_bodyAttributes holdsOfArranged_nodup h,
    Builder.eachComputability_bodyAttributes hdecides h⟩

/-- Every source has one computability, and unique names. -/
theorem forall_sources (x : s.ResourceContributions c o) :
    ∀ source ∈ x.sources, UniqueNames source.2 ∧
      ∀ a ∈ source.2, a.EachComputability (· = source.1.computability) := by
  have hbodies := forall₂_of_mapM_eq_ok x.bodies_eq
  obtain ⟨hcreate, hlater⟩ := List.forall₂_cons.mp hbodies
  obtain ⟨hread, hupdates⟩ := List.forall₂_cons.mp hlater
  intro source hsource
  simp only [sources, List.mem_append, List.mem_cons, List.not_mem_nil, or_false,
    List.mem_map] at hsource
  rcases hsource with ((rfl | rfl) | ⟨attributes, hattributes, rfl⟩) | ⟨a, ha, rfl⟩
  · exact bodyAttributes_of_forced .createResponse hcreate rfl
  · exact bodyAttributes_of_forced .readResponse hread rfl
  · cases hupdate : o.update with
    | none =>
      rw [hupdate] at hupdates
      have hnone : x.update.toList = [] := List.forall₂_nil_left_iff.mp hupdates
      rw [hnone] at hattributes
      cases hattributes
    | some update =>
      rw [hupdate] at hupdates
      obtain ⟨body, rest, hbody, hrest, hlist⟩ := List.forall₂_cons_left_iff.mp hupdates
      have hlist : x.update.toList = body :: rest := hlist
      rw [hlist, List.forall₂_nil_left_iff.mp hrest, List.mem_singleton] at hattributes
      rw [hattributes]
      exact bodyAttributes_of_forced .updateRequest hbody rfl
  · have hbelow := (Builder.operationParameters_eq_ok holdsOfArranged_nodup x.parameters_eq).2 a ha
    have heach := Builder.forall_mem_parameterAttributes
      (fun _ _ _ _ => Builder.eachComputability_parameterAttribute)
      (mapError_eq_ok_iff.mp x.parameters_eq) a ha
    constructor
    · exact ⟨List.nodup_singleton _, by simpa using hbelow⟩
    · intro a' ha'
      rw [List.mem_singleton] at ha'
      rw [ha']
      exact heach

/-- The merge of all contributions is decided by priority. -/
theorem decidedByPriority (x : s.ResourceContributions c o) :
    DecidedByPriority x.create x.sources (mergeAttributes x.create (x.sources.map Prod.snd)) := by
  refine decidedByPriority_mergeAttributes ?_ (fun source h => (x.forall_sources source h).1) ?_
    fun source h => (x.forall_sources source h).2
  · exact namesThroughout_bodyAttributes holdsOfArranged_nodup x.create_eq
  · exact Builder.eachComputability_bodyAttributes (Builder.decides_of_resource rfl rfl) x.create_eq

end ResourceContributions

end Source

/-! ## Overrides -/

/-- Overrides change descriptions only. -/
theorem map_findNames?_applyOverrides {β : Type} {g : Attribute → β}
    (hdescribed : ∀ description a, g (describedAs description a) = g a)
    (hchildren : ∀ a children, g (a.withChildren children) = g a)
    (overrides : List (String × AttributeOverride)) (attributes : List Attribute)
    (path : List String) :
    (findNames? path (applyOverrides overrides attributes)).map g =
      (findNames? path attributes).map g := by
  unfold applyOverrides
  induction overrides generalizing attributes with
  | nil => rfl
  | cons entry rest ih =>
    rw [List.foldl_cons, ih]
    unfold AttributeOverride.apply
    split
    · rfl
    · rename_i description _
      cases hupdated : update? attributes entry.1 (describedAs description) with
      | none => rfl
      | some updated =>
        exact map_findNames?_updateNames? (fun a => name_mapTraits _ a)
          (fun a => children?_mapTraits _ a) (hdescribed description) hchildren hupdated path

theorem variant_withChildren (a : Attribute) (children : List Attribute) :
    (a.withChildren children).variant = a.variant := by
  cases a <;> rfl

theorem variant_describedAs (description : String) (a : Attribute) :
    (describedAs description a).variant = a.variant := by
  cases a <;> rfl

theorem computability_describedAs (description : String) (a : Attribute) :
    (describedAs description a).traits.computability = a.traits.computability := by
  rw [describedAs, traits_mapTraits]

/-- Overrides decide nothing. -/
theorem DecidedByPriority.applyOverrides {create attributes : List Attribute}
    {sources : List (ResourceSource × List Attribute)}
    (h : DecidedByPriority create sources attributes)
    (overrides : List (String × AttributeOverride)) :
    DecidedByPriority create sources (applyOverrides overrides attributes) := by
  refine h.congr ?_ ?_ ((namesThroughout_applyOverrides_iff overrides h.unique.each).mpr h.unique)
  · exact map_findNames?_applyOverrides variant_describedAs variant_withChildren overrides
      attributes
  · exact map_findNames?_applyOverrides computability_describedAs
      (fun a children => by rw [traits_withChildren]) overrides attributes

/-! ## All resources -/

/-- In every resource that is generated the body that it is created from
decides what is required, and the other sources decide about the rest by
priority. -/
theorem decidedByPriority_of_generate_eq_ok {d : Description} {c : Configuration}
    {lines : Option LineIndex} {g : Generated} (h : generate d c lines = .ok g) :
    ∀ e ∈ g.specification.resources, ∃ config o, (e.name, config) ∈ c.resources ∧
      (Source.ofDescription d lines).resourceOperations e.name config = .ok o ∧
        ∃ x : (Source.ofDescription d lines).ResourceContributions config o,
          DecidedByPriority x.create x.sources e.attributes := by
  obtain ⟨-, skippedResources, skippedSources, hresources, -, -⟩ := generate_eq_ok_iff.mp h
  intro e he
  have hmem : e ∈ (generateEntries .resource (Source.ofDescription d lines).resource
      c.resources).1 := by
    rw [hresources]
    exact he
  obtain ⟨config, hconfig, hattributes⟩ := mem_generateEntries hmem
  obtain ⟨o, ho, x, hx⟩ := Source.exists_contributions_of_resource_eq_ok hattributes
  refine ⟨config, o, hconfig, ho, x, ?_⟩
  rw [hx]
  exact x.decidedByPriority.applyOverrides _

/-! ## A resource with all sources -/

/-- A body that is an object of texts. -/
def textContent (names : List String) (required : List String := []) :
    List (String × MediaType) :=
  [("application/json",
    { schema := some (.inline { type := some (.single .object), required }
        { properties := names.map fun name => (name, textSchema) }) })]

/-- A key has a name and may have a note; its color is set later, and its
number is given to it. -/
def keyDescription : Description where
  openapi := "3.0.0"
  info := { title := "Keys", version := "1" }
  paths := [
    ("/keys", {
      post := some {
        requestBody := some (.inline { content := textContent ["name", "note"] ["name"] })
        responses := [("201", .inline { content := textContent ["number", "name"] })] } }),
    ("/key", {
      get := some {
        parameters := [.inline
          { name := "number", place := .path, required := true, schema := some textSchema }, .inline
          { name := "lock", place := .query, required := true, schema := some textSchema }]
        responses := [("200", .inline { content := textContent ["name", "age"] ["name", "age"] })] }
      put := some {
        requestBody := some (.inline { content := textContent ["color", "age"] ["color"] }) } })]

/-- A configuration of keys, which are created, read and updated. -/
def keyConfiguration : Configuration where
  provider := { name := "keys" }
  resources := [("key", {
    create := some ⟨"/keys", "POST"⟩
    read := some ⟨"/key", "GET"⟩
    update := some ⟨"/key", "PUT"⟩ })]

/-- Only the name is required, though the number, the age and the color are
required where they come from. -/
theorem decidedByPriority_generate_keys :
    ∃ g, generate keyDescription keyConfiguration none = .ok g ∧
      ∃ e ∈ g.specification.resources,
        (e.attributes.map fun a => (a.name, a.traits.computability)) =
          [("name", .required), ("note", .computedOptional), ("number", .computed),
            ("age", .computed), ("color", .computedOptional), ("lock", .computedOptional)] ∧
        ∃ create sources, DecidedByPriority create sources e.attributes := by
  have hattributes : (generate keyDescription keyConfiguration none).toOption.map (fun g =>
      g.specification.resources.map fun e =>
        e.attributes.map fun a => (a.name, a.traits.computability)) =
      some [[("name", .required), ("note", .computedOptional), ("number", .computed),
        ("age", .computed), ("color", .computedOptional), ("lock", .computedOptional)]] := by
    decide +kernel
  cases h : generate keyDescription keyConfiguration none with
  | error e =>
    rw [h] at hattributes
    cases hattributes
  | ok g =>
    rw [h] at hattributes
    obtain ⟨e, he, hlist⟩ := List.map_eq_singleton_iff.mp (Option.some.inj hattributes)
    have hmem : e ∈ g.specification.resources := by rw [he]; exact List.mem_cons_self
    obtain ⟨_, _, -, -, x, hx⟩ := decidedByPriority_of_generate_eq_ok h e hmem
    exact ⟨g, rfl, e, hmem, hlist, x.create, x.sources, hx⟩

end ProviderSchema
