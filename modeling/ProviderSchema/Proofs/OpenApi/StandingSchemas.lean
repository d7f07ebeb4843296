import ProviderSchema.Proofs.OpenApi.DescriptionReadBack

/-!
# The schemas that stand in a description

`Description.topSchemas` are the schemas of the parameters, bodies and responses of a
description, those in the components included.  With the component schemas and all
that is below these schemas they are what `Description.Contains`.

Every schema in a description that is read is read from a part of its content
(`Description.exists_part_of_contains`).  A schema that is read is `Schema.Plain`: it is
a copy of no component, and no two properties of one schema have the same name.  So is
every schema in a description that is read (`Description.plain_of_read`).
-/

namespace ProviderSchema.OpenApi

/-! ## Schemas in a schema -/

/-- A schema is another one or stands somewhere below it. -/
inductive Schema.Contains (s : Schema) : Schema → Prop where
  | here : Contains s s
  | child {keywords : Keywords} {c : Children Schema} {t : Schema} (held : c.Holds t)
      (below : Contains s t) : Contains s (.inline keywords c)

/-- No schema is a copy of a component, and no two properties of one have the same
name. -/
inductive Schema.Plain : Schema → Prop where
  | reference (target : String) : Plain (.reference target)
  | inline {keywords : Keywords} {c : Children Schema} (origin : keywords.origin = none)
      (names : (c.properties.map (·.1)).Nodup) (held : ∀ s, c.Holds s → s.Plain) :
      Plain (.inline keywords c)

/-! ## Schemas in a description -/

/-- The schemas of media types. -/
def contentSchemas (content : List (String × MediaType)) : List Schema :=
  content.flatMap fun entry => entry.2.schema.toList

/-- The schemas of a thing that may be a reference; a reference has none. -/
def OrReference.schemas {α : Type} (inside : α → List Schema) : OrReference α → List Schema
  | .reference _ => []
  | .inline value => inside value

/-- The schema of a parameter, if it has one. -/
def Parameter.schemas (p : Parameter) : List Schema := p.schema.toList

/-- The schemas of the body of a request. -/
def RequestBody.schemas (b : RequestBody) : List Schema := contentSchemas b.content

/-- The schemas of a response. -/
def Response.schemas (r : Response) : List Schema := contentSchemas r.content

/-- The schemas of an operation. -/
def Operation.schemas (o : Operation) : List Schema :=
  o.parameters.flatMap (OrReference.schemas Parameter.schemas)
    ++ o.requestBody.toList.flatMap (OrReference.schemas RequestBody.schemas)
    ++ o.responses.flatMap fun entry => entry.2.schemas Response.schemas

/-- The schemas of a path item. -/
def PathItem.schemas (item : PathItem) : List Schema :=
  item.parameters.flatMap (OrReference.schemas Parameter.schemas)
    ++ Method.all.flatMap fun m => (item.operation? m).toList.flatMap Operation.schemas

/-- The schemas of all components but those that are schemas themselves. -/
def Components.otherSchemas (c : Components) : List Schema :=
  c.responses.flatMap (fun entry => entry.2.schemas Response.schemas)
    ++ c.parameters.flatMap (fun entry => entry.2.schemas Parameter.schemas)
    ++ c.requestBodies.flatMap fun entry => entry.2.schemas RequestBody.schemas

namespace Description

/-- The schemas of all parts of a description but the component schemas. -/
def topSchemas (d : Description) : List Schema :=
  d.paths.flatMap (fun entry => entry.2.schemas) ++ (d.components.getD {}).otherSchemas

/-- A schema stands somewhere in a description. -/
inductive Contains (d : Description) (s : Schema) : Prop where
  | top {t : Schema} (h : t ∈ d.topSchemas) (below : Schema.Contains s t)
  | component {name : String} {t : Schema} (h : (name, t) ∈ d.schemas)
      (below : Schema.Contains s t)

theorem schemas_eq (d : Description) : d.schemas = (d.components.getD {}).schemas := by
  unfold schemas
  cases d.components <;> rfl

end Description

/-! ## What schemas are read from -/

/-- Schemas are read from content or from parts of it. -/
def SchemasFrom (c : Content) (schemas : List Schema) : Prop :=
  ∀ s ∈ schemas, ∃ part : Content, part.Within c ∧ Schema.ofContent? part = some s

/-- All schemas of what is read from content are read from it or from its parts. -/
def ReadsParts {α : Type} (read : Content → Option α) (schemas : α → List Schema) : Prop :=
  ∀ c a, read c = some a → SchemasFrom c (schemas a)

theorem SchemasFrom.of_holds {c part : Content} {schemas : List Schema}
    (h : SchemasFrom part schemas) (hpart : c.Holds part) : SchemasFrom c schemas := fun s hs =>
  let ⟨inner, hinner, hread⟩ := h s hs
  ⟨inner, .inr (hinner.below hpart.below), hread⟩

theorem SchemasFrom.append {c : Content} {schemas schemas' : List Schema}
    (h : SchemasFrom c schemas) (h' : SchemasFrom c schemas') :
    SchemasFrom c (schemas ++ schemas') := fun s hs =>
  (List.mem_append.mp hs).elim (h s) (h' s)

theorem SchemasFrom.flatMap {α : Type} {c : Content} {l : List α} {schemas : α → List Schema}
    (h : ∀ a ∈ l, SchemasFrom c (schemas a)) : SchemasFrom c (l.flatMap schemas) := fun s hs =>
  let ⟨a, ha, hs⟩ := List.mem_flatMap.mp hs
  h a ha s hs

theorem readsParts_schema : ReadsParts Schema.ofContent? fun s => [s] := by
  intro c s h t ht
  rw [List.mem_singleton] at ht
  subst ht
  exact ⟨c, c.within_self, h⟩

/-- The schemas in a schema are read from parts of its content. -/
theorem Schema.exists_part_of_contains {content : Content} {s t : Schema}
    (ht : ofContent? content = some t) (h : Schema.Contains s t) :
    ∃ part : Content, part.Within content ∧ ofContent? part = some s := by
  induction h generalizing content with
  | here => exact ⟨content, content.within_self, ht⟩
  | child held _ ih =>
    obtain ⟨part, hpart, hread⟩ := (fields_of_ofContent?_eq_inline ht).2.exists_part held
    obtain ⟨inner, hinner, hs⟩ := ih hread
    exact ⟨inner, .inr (hinner.below hpart), hs⟩

section Combinators

variable {α : Type} {read : Content → Option α} {schemas : α → List Schema}
  {f : Fields} {index : Nat} {c : Content}

/-- A field that is not missing is read from its content. -/
theorem Fields.exists_of_optional {a : α} (h : f.optional index read = some (some a)) :
    ∃ part, f.get? index = some part ∧ read part = some a := by
  unfold Fields.optional at h
  split at h
  · cases h
  · rename_i part hpart
    exact ⟨part, hpart, by cases part <;> simp_all [Content.optional?]⟩

theorem ReadsParts.orReference (h : ReadsParts read schemas) :
    ReadsParts (OrReference.ofContent? read) (OrReference.schemas schemas) := by
  intro c node hnode
  cases node with
  | reference target => simp [OrReference.schemas, SchemasFrom]
  | inline a =>
    unfold OrReference.ofContent? at hnode
    dsimp only at hnode
    split at hnode
    · cases hnode
    · exact h c a (by simpa using hnode)

-- The fields of a record are parts of its content.
variable (hf : ∀ {i : Nat} {part : Content}, f.get? i = some part → c.Holds part)
include hf

theorem ReadsParts.optional (h : ReadsParts read schemas) {x : Option α}
    (hx : f.optional index read = some x) : SchemasFrom c (x.toList.flatMap schemas) := by
  refine .flatMap fun a ha => ?_
  obtain rfl := Option.mem_toList.mp ha
  obtain ⟨part, hpart, hread⟩ := Fields.exists_of_optional hx
  exact (h part a hread).of_holds (hf hpart)

theorem ReadsParts.list (h : ReadsParts read schemas) {l : List α}
    (hl : f.defaulted index [] (Content.list? read) = some l) :
    SchemasFrom c (l.flatMap schemas) := by
  refine .flatMap ?_
  unfold Fields.defaulted at hl
  split at hl
  · cases hl
    simp
  · rename_i part hpart
    exact Content.forall_of_list? (fun item hitem a ha =>
      ((h item a ha).of_holds hitem).of_holds (hf hpart)) hl

theorem ReadsParts.table (h : ReadsParts read schemas) {t : List (String × α)}
    (ht : f.defaulted index [] (Content.table? read) = some t) :
    (t.map (·.1)).Nodup ∧ SchemasFrom c (t.flatMap fun entry => schemas entry.2) := by
  have hentries : (t.map (·.1)).Nodup ∧ ∀ entry ∈ t, SchemasFrom c (schemas entry.2) := by
    unfold Fields.defaulted at ht
    split at ht
    · cases ht
      simp
    · rename_i part hpart
      exact Content.forall_of_table? (P := fun a => SchemasFrom c (schemas a))
        (fun item hitem a ha => ((h item a ha).of_holds hitem).of_holds (hf hpart)) ht
  exact ⟨hentries.1, .flatMap hentries.2⟩

end Combinators

theorem Parameter.readsParts : ReadsParts ofContent? schemas := by
  intro c p h
  simp only [ofContent?, bind_eq_some_iff, Option.pure_def, Option.some_inj] at h
  obtain ⟨f, hf, name, -, place, -, description, -, required, -, deprecated, -, schema, hschema,
    rfl⟩ := h
  simpa [schemas] using readsParts_schema.optional (Content.holds_of_fields? hf) hschema

theorem MediaType.readsParts : ReadsParts ofContent? fun m => m.schema.toList := by
  intro c m h
  simp only [ofContent?, bind_eq_some_iff, Option.pure_def, Option.some_inj] at h
  obtain ⟨f, hf, schema, hschema, sample, -, rfl⟩ := h
  simpa using readsParts_schema.optional (Content.holds_of_fields? hf) hschema

theorem RequestBody.readsParts : ReadsParts ofContent? schemas := by
  intro c b h
  simp only [ofContent?, bind_eq_some_iff, Option.pure_def, Option.some_inj] at h
  obtain ⟨f, hf, description, -, content, hcontent, required, -, rfl⟩ := h
  exact (MediaType.readsParts.table (Content.holds_of_fields? hf) hcontent).2

theorem Response.readsParts : ReadsParts ofContent? schemas := by
  intro c r h
  simp only [ofContent?, bind_eq_some_iff, Option.pure_def, Option.some_inj] at h
  obtain ⟨f, hf, description, -, content, hcontent, rfl⟩ := h
  exact (MediaType.readsParts.table (Content.holds_of_fields? hf) hcontent).2

theorem Operation.readsParts : ReadsParts ofContent? schemas := by
  intro c o h
  simp only [ofContent?, bind_eq_some_iff, Option.pure_def, Option.some_inj] at h
  obtain ⟨f, hf, operationId, -, summary, -, description, -, parameters, hparameters, requestBody,
    hrequestBody, responses, hresponses, deprecated, -, rfl⟩ := h
  have hf : ∀ {i part}, f.get? i = some part → c.Holds part := Content.holds_of_fields? hf
  exact ((Parameter.readsParts.orReference.list hf hparameters).append
    (RequestBody.readsParts.orReference.optional hf hrequestBody)).append
    (Response.readsParts.orReference.table hf hresponses).2

theorem PathItem.readsParts : ReadsParts ofContent? schemas := by
  intro c item h
  simp only [ofContent?, bind_eq_some_iff, Option.pure_def, Option.some_inj] at h
  obtain ⟨f, hf, summary, -, description, -, parameters, hparameters, get, hget, post, hpost, put,
    hput, delete, hdelete, patch, hpatch, options, hoptions, head, hhead, trace, htrace, rfl⟩ := h
  have hf : ∀ {i part}, f.get? i = some part → c.Holds part := Content.holds_of_fields? hf
  refine (Parameter.readsParts.orReference.list hf hparameters).append (.flatMap fun m _ => ?_)
  cases m with
  | get => exact Operation.readsParts.optional hf hget
  | post => exact Operation.readsParts.optional hf hpost
  | put => exact Operation.readsParts.optional hf hput
  | delete => exact Operation.readsParts.optional hf hdelete
  | patch => exact Operation.readsParts.optional hf hpatch
  | options => exact Operation.readsParts.optional hf hoptions
  | head => exact Operation.readsParts.optional hf hhead
  | trace => exact Operation.readsParts.optional hf htrace

/-- The names of component schemas that are read are different ones. -/
theorem Components.readsParts {content : Content} {c : Components}
    (h : ofContent? content = some c) :
    (c.schemas.map (·.1)).Nodup ∧ SchemasFrom content (c.schemas.map (·.2)) ∧
      SchemasFrom content c.otherSchemas := by
  simp only [ofContent?, bind_eq_some_iff, Option.pure_def, Option.some_inj] at h
  obtain ⟨f, hf, schemas, hschemas, responses, hresponses, parameters, hparameters, requestBodies,
    hrequestBodies, rfl⟩ := h
  have hf : ∀ {i part}, f.get? i = some part → content.Holds part := Content.holds_of_fields? hf
  have hschemas := readsParts_schema.table hf hschemas
  refine ⟨hschemas.1, ?_, ((Response.readsParts.orReference.table hf hresponses).2.append
    (Parameter.readsParts.orReference.table hf hparameters).2).append
    (RequestBody.readsParts.orReference.table hf hrequestBodies).2⟩
  rw [List.map_eq_flatMap]
  exact hschemas.2

namespace Description

theorem readsParts {content : Content} {d : Description} (h : ofContent? content = some d) :
    (d.schemas.map (·.1)).Nodup ∧ SchemasFrom content (d.schemas.map (·.2)) ∧
      SchemasFrom content d.topSchemas := by
  simp only [ofContent?, bind_eq_some_iff, Option.pure_def, Option.some_inj] at h
  obtain ⟨f, hf, openapi, -, info, -, paths, hpaths, components, hcomponents, rfl⟩ := h
  have hf : ∀ {i part}, f.get? i = some part → content.Holds part := Content.holds_of_fields? hf
  have hpaths := (PathItem.readsParts.table hf hpaths).2
  have hcomponents : ((components.getD {}).schemas.map (·.1)).Nodup ∧
      SchemasFrom content ((components.getD {}).schemas.map (·.2)) ∧
        SchemasFrom content (components.getD {}).otherSchemas := by
    cases components with
    | none => simp [Components.otherSchemas, SchemasFrom]
    | some c =>
      obtain ⟨part, hpart, hc⟩ := Fields.exists_of_optional hcomponents
      obtain ⟨hnames, hschemas, hothers⟩ := Components.readsParts hc
      exact ⟨hnames, hschemas.of_holds (hf hpart), hothers.of_holds (hf hpart)⟩
  rw [schemas_eq]
  exact ⟨hcomponents.1, hcomponents.2.1, hpaths.append hcomponents.2.2⟩

/-- The schemas that stand in a description are read from parts of its content. -/
theorem exists_part_of_contains {content : Content} {d : Description}
    (h : ofContent? content = some d) {s : Schema} (hs : d.Contains s) :
    ∃ part : Content, part.Within content ∧ Schema.ofContent? part = some s := by
  obtain ⟨-, hschemas, htop⟩ := readsParts h
  have hbelow : ∀ {t}, (∃ part : Content, part.Within content ∧ Schema.ofContent? part = some t) →
      Schema.Contains s t →
      ∃ part : Content, part.Within content ∧ Schema.ofContent? part = some s := by
    rintro t ⟨part, hpart, hread⟩ hcontains
    obtain ⟨inner, hinner, hs⟩ := Schema.exists_part_of_contains hread hcontains
    exact ⟨inner, hinner.trans hpart, hs⟩
  cases hs with
  | top ht below => exact hbelow (htop _ ht) below
  | component ht below => exact hbelow (hschemas _ (List.mem_map_of_mem ht)) below

end Description

/-! ## What is read is plain -/

/-- The origin is none of the fields that keywords are read from. -/
theorem Schema.origin_of_keywords? {f : Fields} {k : Keywords} (h : keywords? f = some k) :
    k.origin = none := by
  simp only [keywords?, bind_eq_some_iff, Option.pure_def, Option.some_inj] at h
  grind

theorem Schema.plain_of_ofContent? {content : Content} {s : Schema}
    (h : ofContent? content = some s) : s.Plain := by
  induction content using Content.inductionOnParts generalizing s with
  | step content ih =>
    cases s with
    | reference target => exact .reference target
    | inline keywords c =>
      obtain ⟨⟨f, -, hkeywords⟩, hchildren⟩ := fields_of_ofContent?_eq_inline h
      refine .inline (origin_of_keywords? hkeywords) hchildren.nodup_properties fun s hs => ?_
      obtain ⟨part, hpart, hread⟩ := hchildren.exists_part hs
      exact ih part hpart hread

namespace Description

/-- A description has no copies in it, and different names wherever schemas are named. -/
structure Plain (d : Description) : Prop where
  names : (d.schemas.map (·.1)).Nodup
  schemas : ∀ s, d.Contains s → s.Plain

theorem plain_of_read {format : Format} {text : String} {d : Description}
    (h : read format text = .ok d) : d.Plain := by
  obtain ⟨⟨c, -, hc⟩, -⟩ := exists_content_of_read h
  refine ⟨(readsParts hc).1, fun s hs => ?_⟩
  obtain ⟨part, -, hread⟩ := exists_part_of_contains hc hs
  exact Schema.plain_of_ofContent? hread

end Description

end ProviderSchema.OpenApi
