import ProviderSchema.Assembly.Generation
import ProviderSchema.Proofs.Assembly.Overrides
import ProviderSchema.Proofs.Node.Rearranged
import ProviderSchema.Proofs.OpenApi.RearrangedOperations

/-!
# The order of tables does not count

What is generated of a description and a configuration does not depend on the
order in which the entries of their tables are written
(`generate_eq_of_rearranged`): neither what is generated, nor what is skipped
and why, nor the error if nothing is generated.

Exploring a rearranged description leads to operations that are alike, nodes
of schemas that are alike have the same outline, and aliases are looked up by
name.  Overrides are made one after the other, but at different paths.
-/

namespace ProviderSchema

open OpenApi

/-! ## Configurations -/

/-- The same paths are ignored, and aliases and overrides differ in their order only. -/
structure SchemaOptions.Rearranged (o o' : SchemaOptions) : Prop where
  ignores : o.ignores = o'.ignores
  aliases : Table.Rearranged (· = ·) o.attributes.aliases o'.attributes.aliases
  overrides : Table.Rearranged (· = ·) o.attributes.overrides o'.attributes.overrides

/-- Resources differ in the order of aliases and overrides only. -/
structure ResourceConfiguration.Rearranged (c c' : ResourceConfiguration) : Prop where
  schema : c.schema.Rearranged c'.schema
  others : { c with schema := {} } = { c' with schema := {} }

/-- Data sources differ in the order of aliases and overrides only. -/
structure DataSourceConfiguration.Rearranged (c c' : DataSourceConfiguration) : Prop where
  schema : c.schema.Rearranged c'.schema
  read : c.read = c'.read

/-- Configurations are the same but for the order of aliases and overrides. -/
structure Configuration.Rearranged (c c' : Configuration) : Prop where
  provider : c.provider = c'.provider
  resources : List.Forall₂ (fun e e' => e.1 = e'.1 ∧ e.2.Rearranged e'.2) c.resources c'.resources
  dataSources : List.Forall₂ (fun e e' => e.1 = e'.1 ∧ e.2.Rearranged e'.2) c.dataSources
    c'.dataSources

/-! ## Overrides -/

theorem applyOverrides_eq_of_rearranged {overrides overrides' : List (String × AttributeOverride)}
    (h : Table.Rearranged (· = ·) overrides overrides') (attributes : List Attribute) :
    applyOverrides overrides attributes = applyOverrides overrides' attributes := by
  refine h.perm.foldl_eq' (fun entry hentry entry' hentry' attributes => ?_) attributes
  by_cases hname : entry.1 = entry'.1
  · -- Names are distinct, so an override has no other one to be ordered with.
    rw [List.inj_on_of_nodup_map h.distinct hentry hentry' hname]
  · exact AttributeOverride.apply_comm (Ne.symm hname) entry'.2 entry.2 attributes

/-! ## Bodies and parameters -/

/-- Bodies of operations that are alike, used in the same way. -/
structure Body.Rearranged (body body' : Body) : Prop where
  operation : body.operation.Rearranged body'.operation
  schema : AgreeUpTo Schema.Rearranged body.schema body'.schema
  forced : body.forced = body'.forced
  mayBeMissing : body.mayBeMissing = body'.mayBeMissing

namespace Builder

variable {b : Builder}

theorem schemaAttributes_eq_of_rearranged {s s' : Schema} (h : s.Rearranged s') :
    b.schemaAttributes s = b.schemaAttributes s' := by
  unfold schemaAttributes
  generalize s.node = x, s'.node = x', h.agreeUpTo_node = hrel
  cases hrel with
  | error e => rfl
  | ok hnode => exact b.attributes_congr hnode

theorem bodyAttributes_eq_of_rearranged {body body' : Body} (h : body.Rearranged body') :
    b.bodyAttributes body = b.bodyAttributes body' := by
  unfold bodyAttributes
  dsimp only
  rw [h.forced, h.mayBeMissing, h.operation.line_eq]
  generalize body.schema = x, body'.schema = x', h.schema = hrel
  cases hrel with
  | error e => rfl
  | ok hs =>
    dsimp only
    rw [schemaAttributes_eq_of_rearranged hs]

theorem parameterName_eq_of_rearranged {aliases aliases' : List (String × String)}
    (h : Table.Rearranged (· = ·) aliases aliases') {p p' : Parameter} (hp : p.Rearranged p') :
    parameterName aliases p = parameterName aliases' p' := by
  unfold parameterName
  dsimp only
  rw [hp.name_eq, h.get?_eq, h.get?_eq]

theorem parameterAttribute_eq_of_rearranged (role : ParameterRole) (name : String)
    {p p' : Parameter} (hp : p.Rearranged p') {s s' : Schema} (hs : s.Rearranged s') :
    b.parameterAttribute role name p s = b.parameterAttribute role name p' s' := by
  obtain ⟨-, -, hdescription, hrequired, hdeprecated, -⟩ := Parameter.mk.inj hp.others
  unfold parameterAttribute parameterComputability
  rw [hrequired, hdescription, hdeprecated]
  dsimp only
  generalize s.node = x, s'.node = x', hs.agreeUpTo_node = hrel
  cases hrel with
  | error e => rfl
  | @ok n n' hnode =>
    have hdescribed : (n.describedBy p'.description).outline =
        (n'.describedBy p'.description).outline := by
      rw [Node.outline_describedBy, Node.outline_describedBy, hnode]
    dsimp only
    rw [attributeNamed_congr _ hdescribed]

theorem parameterAttributes_eq_of_rearranged (role : ParameterRole)
    {options options' : SchemaOptions} (hoptions : options.Rearranged options')
    {ps ps' : List Parameter} (hps : List.Forall₂ Parameter.Rearranged ps ps') :
    b.parameterAttributes role options ps = b.parameterAttributes role options' ps' := by
  induction hps with
  | nil => rfl
  | @cons p p' _ _ hp _ ih =>
    have hcontributes : contributes p = contributes p' := by
      unfold contributes
      rw [hp.place_eq]
    rw [parameterAttributes, parameterAttributes,
      parameterName_eq_of_rearranged hoptions.aliases hp, hoptions.ignores, hcontributes, ih]
    generalize p.schema = s, p'.schema = s', hp.schema = hrel
    cases hrel with
    | none => rfl
    | some hs =>
      dsimp only
      rw [parameterAttribute_eq_of_rearranged role _ hp hs]

theorem operationParameters_eq_of_rearranged (role : ParameterRole)
    {options options' : SchemaOptions} (hoptions : options.Rearranged options')
    {o o' : ExploredOperation} (ho : o.Rearranged o') :
    b.operationParameters role options o = b.operationParameters role options' o' := by
  unfold operationParameters
  rw [parameterAttributes_eq_of_rearranged role hoptions ho.parameters, ho.line_eq]

end Builder

namespace Source

variable {s s' : Source}

/-! ## Operations -/

theorem agreeUpTo_operation (h : s.description.Rearranged s'.description) (owner field : String)
    (target : Option OperationTarget) :
    AgreeUpTo ExploredOperation.Rearranged (s.operation owner field target)
      (s'.operation owner field target) := by
  cases target with
  | none => exact .error _
  | some target => exact h.explore target

theorem agreeUpTo_operation? (h : s.description.Rearranged s'.description)
    (target : Option OperationTarget) :
    AgreeUpTo (Option.Rel ExploredOperation.Rearranged) (s.operation? target)
      (s'.operation? target) := by
  cases target with
  | none => exact .ok .none
  | some target =>
    unfold operation?
    dsimp only
    generalize s.description.explore target = x, s'.description.explore target = x',
      h.explore target = hrel
    cases hrel with
    | error e => exact .error e
    | ok ho => exact .ok (.some ho)

/-- The operations of a resource are alike, one by one. -/
structure ResourceOperations.Rearranged (o o' : ResourceOperations) : Prop where
  create : o.create.Rearranged o'.create
  read : o.read.Rearranged o'.read
  update : Option.Rel ExploredOperation.Rearranged o.update o'.update

theorem agreeUpTo_resourceOperations (h : s.description.Rearranged s'.description) (name : String)
    {c c' : ResourceConfiguration} (hc : c.Rearranged c') :
    AgreeUpTo ResourceOperations.Rearranged (s.resourceOperations name c)
      (s'.resourceOperations name c') := by
  obtain ⟨hcreate, hread, hupdate, -⟩ := ResourceConfiguration.mk.inj hc.others
  unfold resourceOperations
  rw [hcreate, hread, hupdate]
  generalize s.operation name "create" c'.create = x, s'.operation name "create" c'.create = x',
    agreeUpTo_operation h name "create" c'.create = hrel
  cases hrel with
  | error e => exact .error e
  | ok hcreate =>
    dsimp only
    generalize s.operation name "read" c'.read = x, s'.operation name "read" c'.read = x',
      agreeUpTo_operation h name "read" c'.read = hrel
    cases hrel with
    | error e => exact .error e
    | ok hread =>
      dsimp only
      generalize s.operation? c'.update = x, s'.operation? c'.update = x',
        agreeUpTo_operation? h c'.update = hrel
      cases hrel with
      | error e => exact .error e
      | ok hupdate => exact .ok ⟨hcreate, hread, hupdate⟩

/-! ## Resources -/

theorem ResourceOperations.Rearranged.primary {o o' : ResourceOperations} (h : o.Rearranged o') :
    o.primary.Rearranged o'.primary :=
  ⟨h.create, h.create.requestSchema, rfl, rfl⟩

theorem ResourceOperations.Rearranged.others {o o' : ResourceOperations} (h : o.Rearranged o') :
    List.Forall₂ Body.Rearranged o.others o'.others := by
  have hupdate := h.update
  unfold ResourceOperations.others
  generalize o.update = u at hupdate ⊢
  generalize o'.update = u' at hupdate ⊢
  refine .cons ⟨h.create, h.create.responseSchema, rfl, rfl⟩
    (.cons ⟨h.read, h.read.responseSchema, rfl, rfl⟩ ?_)
  cases hupdate with
  | none => exact .nil
  | some hu => exact .cons ⟨hu, hu.requestSchema, rfl, rfl⟩ .nil

theorem resourceContributions_eq_of_rearranged (hlines : s.lines = s'.lines)
    {c c' : ResourceConfiguration} (hc : c.Rearranged c') {o o' : ResourceOperations}
    (ho : o.Rearranged o') : s.resourceContributions c o = s'.resourceContributions c' o' := by
  have hbodies (b : Builder) : o.others.mapM b.bodyAttributes = o'.others.mapM b.bodyAttributes :=
    mapM_eq_of_forall₂ (fun _ _ hbody => b.bodyAttributes_eq_of_rearranged hbody) ho.others
  unfold resourceContributions entryBuilder
  rw [hlines, hc.schema.ignores]
  dsimp only
  rw [Builder.bodyAttributes_eq_of_rearranged ho.primary, hbodies,
    Builder.operationParameters_eq_of_rearranged .lookup hc.schema ho.read]

theorem resource_eq_of_rearranged (h : s.description.Rearranged s'.description)
    (hlines : s.lines = s'.lines) (name : String) {c c' : ResourceConfiguration}
    (hc : c.Rearranged c') : s.resource name c = s'.resource name c' := by
  unfold resource
  generalize s.resourceOperations name c = x, s'.resourceOperations name c' = x',
    agreeUpTo_resourceOperations h name hc = hrel
  cases hrel with
  | error e => rfl
  | ok ho =>
    dsimp only
    rw [resourceContributions_eq_of_rearranged hlines hc ho]
    simp only [applyOverrides_eq_of_rearranged hc.schema.overrides]

/-! ## Data sources -/

theorem responseAttributes_congr (b : Builder) (name : String) {n n' : Node}
    (h : n.outline = n'.outline) : responseAttributes b name n = responseAttributes b name n' := by
  have hkind : n.facts.kind = n'.facts.kind := by
    have hfacts := congrArg (fun m => (Node.facts m).kind) h
    rw [Node.facts_outline, Node.facts_outline] at hfacts
    exact hfacts
  unfold responseAttributes
  rw [hkind, b.attributeNamed_congr h, b.attributes_congr h]

theorem dataSourceContributions_eq_of_rearranged (hlines : s.lines = s'.lines) (name : String)
    {c c' : DataSourceConfiguration} (hc : c.Rearranged c') {o o' : ExploredOperation}
    (ho : o.Rearranged o') :
    s.dataSourceContributions name c o = s'.dataSourceContributions name c' o' := by
  have hnode : AgreeUpTo (fun n n' => Node.outline n = Node.outline n')
      (o.responseSchema.bind Schema.node) (o'.responseSchema.bind Schema.node) := by
    generalize o.responseSchema = x, o'.responseSchema = x', ho.responseSchema = hrel
    cases hrel with
    | error e => exact .error e
    | ok hs => exact hs.agreeUpTo_node
  unfold dataSourceContributions entryBuilder
  rw [hlines, hc.schema.ignores, ho.line_eq]
  dsimp only
  rw [Builder.operationParameters_eq_of_rearranged .argument hc.schema ho]
  generalize o.responseSchema.bind Schema.node = x, o'.responseSchema.bind Schema.node = x',
    hnode = hrel
  cases hrel with
  | error e => rfl
  | ok hn =>
    dsimp only
    rw [responseAttributes_congr _ name hn]

theorem dataSource_eq_of_rearranged (h : s.description.Rearranged s'.description)
    (hlines : s.lines = s'.lines) (name : String) {c c' : DataSourceConfiguration}
    (hc : c.Rearranged c') : s.dataSource name c = s'.dataSource name c' := by
  unfold dataSource
  rw [hc.read]
  generalize s.operation name "read" c'.read = x, s'.operation name "read" c'.read = x',
    agreeUpTo_operation h name "read" c'.read = hrel
  cases hrel with
  | error e => rfl
  | ok ho =>
    dsimp only
    rw [dataSourceContributions_eq_of_rearranged hlines name hc ho]
    simp only [applyOverrides_eq_of_rearranged hc.schema.overrides]

/-! ## The provider -/

theorem provider_eq_of_rearranged (h : s.description.Rearranged s'.description)
    (hlines : s.lines = s'.lines) (c : ProviderConfiguration) : s.provider c = s'.provider c := by
  have hnode (name target : String) : AgreeUpTo (fun n n' => Node.outline n = Node.outline n')
      (s.providerNode name target) (s'.providerNode name target) := by
    unfold providerNode
    generalize Table.get? s.description.schemas name = x,
      Table.get? s'.description.schemas name = x', h.rel_get?_schemas name = hrel
    cases hrel with
    | none => exact .error _
    | some hs => exact hs.agreeUpTo_node
  have hbuilt (name target : String) :
      (s.providerNode name target).bind (s.providerBuilder c).attributes =
        (s'.providerNode name target).bind (s'.providerBuilder c).attributes := by
    have hbuilder : s.providerBuilder c = s'.providerBuilder c := by
      unfold providerBuilder
      rw [hlines]
    rw [hbuilder]
    generalize s.providerNode name target = x, s'.providerNode name target = x',
      hnode name target = hrel
    cases hrel with
    | error e => rfl
    | ok hn => exact Builder.attributes_congr _ hn
  unfold provider
  simp only [hbuilt, hlines]

end Source

/-! ## All entries -/

theorem generateEntries_eq_of_forall₂ {α : Type} {R : α → α → Prop} (kind : EntryKind)
    {f f' : String → α → Except GenerationError (List Attribute)}
    (hf : ∀ name a a', R a a' → f name a = f' name a') {l l' : List (String × α)}
    (h : List.Forall₂ (fun e e' => e.1 = e'.1 ∧ R e.2 e'.2) l l') :
    generateEntries kind f l = generateEntries kind f' l' := by
  induction h with
  | nil => rfl
  | @cons e e' _ _ he _ ih =>
    obtain ⟨name, a⟩ := e
    obtain ⟨name', a'⟩ := e'
    obtain ⟨rfl, ha⟩ := he
    rw [generateEntries, generateEntries, ih, hf name a a' ha]

/-- What is generated, or why nothing is, does not depend on the order of the
entries of any table. -/
theorem generate_eq_of_rearranged {d d' : Description} {c c' : Configuration}
    (hd : d.Rearranged d') (hc : c.Rearranged c') (lines : Option LineIndex) :
    generate d c lines = generate d' c' lines := by
  have hsource : (Source.ofDescription d lines).description.Rearranged
      (Source.ofDescription d' lines).description := hd.inlined
  have hlines : (Source.ofDescription d lines).lines = (Source.ofDescription d' lines).lines := rfl
  have hresources : generateEntries .resource (Source.ofDescription d lines).resource c.resources =
      generateEntries .resource (Source.ofDescription d' lines).resource c'.resources := by
    refine generateEntries_eq_of_forall₂ .resource (fun name r r' hr => ?_) hc.resources
    exact Source.resource_eq_of_rearranged hsource hlines name hr
  have hdataSources :
      generateEntries .dataSource (Source.ofDescription d lines).dataSource c.dataSources =
        generateEntries .dataSource (Source.ofDescription d' lines).dataSource c'.dataSources := by
    refine generateEntries_eq_of_forall₂ .dataSource (fun name r r' hr => ?_) hc.dataSources
    exact Source.dataSource_eq_of_rearranged hsource hlines name hr
  unfold generate
  dsimp only
  rw [hc.provider, Source.provider_eq_of_rearranged hsource hlines, hresources, hdataSources]

/-! ## Books, in different orders -/

/-- A book, with the names of its properties in some order. -/
def bookSchema (properties : List String) : Schema :=
  .inline { type := some (.single .object) }
    { properties := properties.map fun name =>
        (name, .inline { type := some (.single .string) } {}) }

/-- A response with a book, with its media types in some order. -/
def bookResponse (types : List String) : Response where
  content := types.map fun type =>
    (type, { schema := some (.reference (Reference.text "schemas" "Book")) })

/-- Books are read; the properties, the media types and the responses are
written in some order. -/
def bookDescription (properties types statuses : List String) : Description where
  openapi := "3.0.0"
  info := { title := "Books", version := "1" }
  paths := [("/book", { get := some {
    responses := statuses.map fun status => (status, .inline (bookResponse types)) } })]
  components := some { schemas := [("Book", bookSchema properties)] }

/-- Books, some of whose attributes are described by their names. -/
def bookConfiguration (described : List String) : Configuration where
  provider := { name := "books" }
  dataSources := [("book", {
    read := some ⟨"/book", "GET"⟩
    schema := { attributes := {
      overrides := described.map fun name => (name, { description := some name }) } } })]

theorem rearranged_bookSchema {properties properties' : List String}
    (h : properties.Perm properties') (hdistinct : properties.Nodup) :
    (bookSchema properties).Rearranged (bookSchema properties') := by
  have htext (keywords : Keywords) :
      Schema.Rearranged (.inline keywords {}) (.inline keywords {}) := by
    refine .inline keywords ⟨.refl _, List.nodup_nil, rfl⟩ fun step s s' hs => ?_
    cases step <;> cases hs
  have htable := Table.rearranged_map h hdistinct fun _ => htext { type := some (.single .string) }
  refine .inline _ ⟨htable.names, htable.distinct, rfl⟩ fun step s s' hs hs' => ?_
  cases step with
  | property name => exact htable.values name s s' hs hs'
  | _ => cases hs

theorem rearranged_bookResponse {types types' : List String} (h : types.Perm types')
    (hdistinct : types.Nodup) : (bookResponse types).Rearranged (bookResponse types') :=
  ⟨Table.rearranged_map h hdistinct fun _ => ⟨.some (.reference _), rfl⟩, rfl⟩

theorem rearranged_bookDescription
    {properties properties' types types' statuses statuses' : List String}
    (hproperties : properties.Perm properties') (hdistinct : properties.Nodup)
    (htypes : types.Perm types') (hdistinctTypes : types.Nodup)
    (hstatuses : statuses.Perm statuses') (hdistinctStatuses : statuses.Nodup) :
    (bookDescription properties types statuses).Rearranged
      (bookDescription properties' types' statuses') := by
  have hresponses := Table.rearranged_map (R := OrReference.Related Response.Rearranged) hstatuses
    hdistinctStatuses fun _ => .inline (rearranged_bookResponse htypes hdistinctTypes)
  have hbook := Table.rearranged_singleton "Book" (rearranged_bookSchema hproperties hdistinct)
  refine ⟨Table.rearranged_singleton "/book" ⟨.nil, fun method => ?_, rfl, rfl⟩, .some ?_, rfl⟩
  · cases method with
    | get => exact .some ⟨.nil, .none, hresponses, rfl⟩
    | _ => exact .none
  · exact ⟨hbook, Table.rearranged_nil _, Table.rearranged_nil _, Table.rearranged_nil _⟩

theorem rearranged_bookConfiguration {described described' : List String}
    (h : described.Perm described') (hdistinct : described.Nodup) :
    (bookConfiguration described).Rearranged (bookConfiguration described') := by
  have hoverrides : Table.Rearranged (· = ·)
      (described.map fun name => (name, ({ description := some name } : AttributeOverride)))
      (described'.map fun name => (name, { description := some name })) :=
    Table.rearranged_map h hdistinct fun _ => rfl
  exact ⟨rfl, .nil, .cons ⟨rfl, ⟨rfl, Table.rearranged_nil _, hoverrides⟩, rfl⟩ .nil⟩

/-- Books come out the same, whatever is written first. -/
theorem generate_books_eq :
    ∃ g, generate (bookDescription ["title", "author"] ["text/xml", "text/json"] ["204", "202"])
        (bookConfiguration ["title", "author"]) none = .ok g ∧
      generate (bookDescription ["author", "title"] ["text/json", "text/xml"] ["202", "204"])
        (bookConfiguration ["author", "title"]) none = .ok g ∧
      g.specification.dataSources.map (fun e =>
          e.attributes.map fun a => (a.name, a.traits.description)) =
        [[("author", some "author"), ("title", some "title")]] := by
  have heq := generate_eq_of_rearranged
    (rearranged_bookDescription (List.Perm.swap "author" "title" []) (by decide)
      (List.Perm.swap "text/json" "text/xml" []) (by decide) (List.Perm.swap "202" "204" [])
      (by decide))
    (rearranged_bookConfiguration (List.Perm.swap "author" "title" []) (by decide)) none
  have hattributes : (generate
        (bookDescription ["title", "author"] ["text/xml", "text/json"] ["204", "202"])
        (bookConfiguration ["title", "author"]) none).toOption.map (fun g =>
      g.specification.dataSources.map fun e =>
        e.attributes.map fun a => (a.name, a.traits.description)) =
      some [[("author", some "author"), ("title", some "title")]] := by decide +kernel
  cases h : generate (bookDescription ["title", "author"] ["text/xml", "text/json"] ["204", "202"])
      (bookConfiguration ["title", "author"]) none with
  | error e =>
    rw [h] at hattributes
    cases hattributes
  | ok g =>
    rw [h] at hattributes heq
    exact ⟨g, rfl, heq.symm, Option.some.inj hattributes⟩

end ProviderSchema
