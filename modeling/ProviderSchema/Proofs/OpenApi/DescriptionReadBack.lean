import ProviderSchema.OpenApi.Reading
import ProviderSchema.Proofs.OpenApi.SchemaReadBack

/-!
# Descriptions read back what was written

Every record of a description is written as a record again, field by field, and its
fields are read back: `Parameter.readsBack`, `Operation.readsBack` and so on, up to
`Description.readsBack`.  A thing that may be a reference is told from a reference by
the fields it is written with, as `$ref` is none of them (`OrReference.readsBack`).
-/

namespace ProviderSchema.OpenApi

open Json (listMember?_eq listValue objectMember?_eq recordMembers tableValue)

/-! ## References -/

/-- A thing that may be a reference reads back if the thing itself is written as a
record without a field `$ref`. -/
theorem OrReference.readsBack {α : Type} {read : Content → Option α} {write : α → Json}
    (h : ReadsBack read write) {names : List String} (hnames : "$ref" ∉ names)
    {values : α → List (Option Json)}
    (hwrite : ∀ a, write a = .object (recordMembers names (values a))) :
    ReadsBack (OrReference.ofContent? read) (OrReference.toJson write) := by
  intro c hc
  refine ⟨fun node hnode => ?_, fun node _ _ => ?_⟩
  · cases node with
    | reference target =>
      rw [OrReference.toJson, Content.ofJson, OrReference.ofContent?,
        Schema.referenceTarget?_ofJson_reference]
    | inline a =>
      have hread : read c = some a := by
        unfold OrReference.ofContent? at hnode
        dsimp only at hnode
        split at hnode
        · cases hnode
        · simpa using hnode
      have hagain := (h c hc).again a hread
      rw [hwrite, Content.ofJson] at hagain
      rw [OrReference.toJson, hwrite, Content.ofJson, OrReference.ofContent?,
        Schema.referenceTarget?_recordMembers hnames, hagain]
      rfl
  · cases node with
    | reference target => exact Json.noConfusion
    | inline a =>
      rw [OrReference.toJson, hwrite]
      exact Json.noConfusion

/-! ## Parameters -/

namespace Parameter

/-- The values of the fields, in order. -/
def fieldValues (p : Parameter) : List (Option Json) :=
  [some (.text p.name), some (.text p.place.text), p.description.map .text,
    some (.bool p.required), p.deprecated.map .bool, p.schema.map Schema.toJson]

theorem toJson_eq (p : Parameter) :
    p.toJson = .object (recordMembers (fieldList.map (·.1)) p.fieldValues) := by
  rw [toJson]
  simp only [List.append_assoc, textMember?, flagMember?, fieldList, fieldValues, List.map_cons,
    List.map_nil, recordMembers, List.append_nil]
  rfl

theorem readsBack_place : ReadsBack ParameterPlace.ofContent? fun p => .text p.text :=
  fun _ _ => ⟨fun p _ => by cases p <;> decide, fun _ _ _ => Json.noConfusion⟩

theorem readsBack : ReadsBack ofContent? toJson := by
  refine .record (by decide) (fun _ => rfl) toJson_eq (fun _ => Nat.le_refl 6)
    fun f f' p hf h hwritten => ?_
  simp only [bind_eq_some_iff, Option.pure_def, Option.some_inj] at h ⊢
  obtain ⟨name, hname, place, hplace, description, hdescription, required, -, deprecated,
    hdeprecated, schema, hschema, rfl⟩ := h
  exact ⟨name, Fields.required_again readsBack_text hf hname (hwritten 0),
    place, Fields.required_again readsBack_place hf hplace (hwritten 1),
    description, Fields.optional_again readsBack_text hf hdescription (hwritten 2),
    required, Fields.flag_again (hwritten 3),
    deprecated, Fields.optional_again readsBack_flag hf hdeprecated (hwritten 4),
    schema, Fields.optional_again Schema.readsBack_schema hf hschema (hwritten 5), rfl⟩

end Parameter

/-! ## Bodies and responses -/

namespace MediaType

/-- The values of the fields, in order. -/
def fieldValues (m : MediaType) : List (Option Json) := [m.schema.map Schema.toJson, m.sample]

theorem toJson_eq (m : MediaType) :
    m.toJson = .object (recordMembers (fieldList.map (·.1)) m.fieldValues) := by
  rw [toJson]
  simp only [fieldList, fieldValues, List.map_cons, List.map_nil, recordMembers, List.append_nil]

theorem readsBack : ReadsBack ofContent? toJson := by
  refine .record (by decide) (fun _ => rfl) toJson_eq (fun _ => Nat.le_refl 2)
    fun f f' m hf h hwritten => ?_
  simp only [bind_eq_some_iff, Option.pure_def, Option.some_inj] at h ⊢
  obtain ⟨schema, hschema, sample, hsample, rfl⟩ := h
  exact ⟨schema, Fields.optional_again Schema.readsBack_schema hf hschema (hwritten 0),
    sample, Fields.optional_again readsBack_free hf hsample
      (by rw [Option.map_id_fun]; exact hwritten 1), rfl⟩

end MediaType

namespace RequestBody

/-- The values of the fields, in order. -/
def fieldValues (b : RequestBody) : List (Option Json) :=
  [b.description.map .text, some (.object (tableMembers MediaType.toJson b.content)),
    some (.bool b.required)]

theorem toJson_eq (b : RequestBody) :
    b.toJson = .object (recordMembers (fieldList.map (·.1)) b.fieldValues) := by
  rw [toJson]
  simp only [textMember?, fieldList, fieldValues, List.map_cons, List.map_nil, recordMembers,
    List.append_nil]
  rfl

theorem readsBack : ReadsBack ofContent? toJson := by
  refine .record (by decide) (fun _ => rfl) toJson_eq (fun _ => Nat.le_refl 3)
    fun f f' b hf h hwritten => ?_
  simp only [bind_eq_some_iff, Option.pure_def, Option.some_inj] at h ⊢
  obtain ⟨description, hdescription, content, hcontent, required, -, rfl⟩ := h
  exact ⟨description, Fields.optional_again readsBack_text hf hdescription (hwritten 0),
    content, Fields.always_again MediaType.readsBack.table hf rfl hcontent (hwritten 1),
    required, Fields.flag_again (hwritten 2), rfl⟩

end RequestBody

namespace Response

/-- The values of the fields, in order. -/
def fieldValues (r : Response) : List (Option Json) :=
  [r.description.map .text, tableValue (tableMembers MediaType.toJson r.content)]

theorem toJson_eq (r : Response) :
    r.toJson = .object (recordMembers (fieldList.map (·.1)) r.fieldValues) := by
  rw [toJson]
  simp only [textMember?, objectMember?_eq, fieldList, fieldValues, List.map_cons, List.map_nil,
    recordMembers, List.append_nil]

theorem readsBack : ReadsBack ofContent? toJson := by
  refine .record (by decide) (fun _ => rfl) toJson_eq (fun _ => Nat.le_refl 2)
    fun f f' r hf h hwritten => ?_
  simp only [bind_eq_some_iff, Option.pure_def, Option.some_inj] at h ⊢
  obtain ⟨description, hdescription, content, hcontent, rfl⟩ := h
  exact ⟨description, Fields.optional_again readsBack_text hf hdescription (hwritten 0),
    content, Fields.table_again MediaType.readsBack hf hcontent (hwritten 1), rfl⟩

end Response

/-! ## Alternatives -/

theorem readsBack_parameterOrReference :
    ReadsBack (OrReference.ofContent? Parameter.ofContent?) (OrReference.toJson Parameter.toJson) :=
  OrReference.readsBack Parameter.readsBack (by decide) Parameter.toJson_eq

theorem readsBack_bodyOrReference :
    ReadsBack (OrReference.ofContent? RequestBody.ofContent?)
      (OrReference.toJson RequestBody.toJson) :=
  OrReference.readsBack RequestBody.readsBack (by decide) RequestBody.toJson_eq

theorem readsBack_responseOrReference :
    ReadsBack (OrReference.ofContent? Response.ofContent?) (OrReference.toJson Response.toJson) :=
  OrReference.readsBack Response.readsBack (by decide) Response.toJson_eq

/-! ## Operations and paths -/

namespace Operation

/-- The values of the fields, in order. -/
def fieldValues (o : Operation) : List (Option Json) :=
  [o.operationId.map .text, o.summary.map .text, o.description.map .text,
    listValue (o.parameters.map (OrReference.toJson Parameter.toJson)),
    o.requestBody.map (OrReference.toJson RequestBody.toJson),
    tableValue (tableMembers (OrReference.toJson Response.toJson) o.responses),
    o.deprecated.map .bool]

theorem toJson_eq (o : Operation) :
    o.toJson = .object (recordMembers ((fieldsOf fields).map (·.1)) o.fieldValues) := by
  rw [toJson]
  simp only [List.append_assoc, textMember?, flagMember?, listMember?_eq, objectMember?_eq,
    fieldsOf, fields, fieldValues, List.map_cons, List.map_nil, recordMembers, List.append_nil]

theorem readsBack : ReadsBack ofContent? toJson := by
  refine .record (by decide) (fun _ => rfl) toJson_eq (fun _ => Nat.le_refl 7)
    fun f f' o hf h hwritten => ?_
  simp only [bind_eq_some_iff, Option.pure_def, Option.some_inj] at h ⊢
  obtain ⟨operationId, hoperationId, summary, hsummary, description, hdescription, parameters,
    hparameters, requestBody, hrequestBody, responses, hresponses, deprecated, hdeprecated,
    rfl⟩ := h
  exact ⟨operationId, Fields.optional_again readsBack_text hf hoperationId (hwritten 0),
    summary, Fields.optional_again readsBack_text hf hsummary (hwritten 1),
    description, Fields.optional_again readsBack_text hf hdescription (hwritten 2),
    parameters, Fields.list_again readsBack_parameterOrReference hf hparameters (hwritten 3),
    requestBody, Fields.optional_again readsBack_bodyOrReference hf hrequestBody (hwritten 4),
    responses, Fields.table_again readsBack_responseOrReference hf hresponses (hwritten 5),
    deprecated, Fields.optional_again readsBack_flag hf hdeprecated (hwritten 6), rfl⟩

end Operation

namespace PathItem

/-- The values of the fields, in order. -/
def fieldValues (i : PathItem) : List (Option Json) :=
  [i.summary.map .text, i.description.map .text,
    listValue (i.parameters.map (OrReference.toJson Parameter.toJson))]
    ++ Method.all.map fun m => (i.operation? m).map Operation.toJson

theorem toJson_eq (i : PathItem) :
    i.toJson = .object (recordMembers ((fieldsOf fields).map (·.1)) i.fieldValues) := by
  rw [toJson]
  simp only [List.append_assoc, textMember?, listMember?_eq, Method.all, List.flatMap_cons,
    List.flatMap_nil, fieldsOf, fields, fieldValues, List.cons_append, List.nil_append,
    List.map_cons, List.map_nil, recordMembers, List.append_nil]

theorem readsBack : ReadsBack ofContent? toJson := by
  refine .record (by decide) (fun _ => rfl) toJson_eq (fun _ => Nat.le_refl 11)
    fun f f' i hf h hwritten => ?_
  simp only [bind_eq_some_iff, Option.pure_def, Option.some_inj] at h ⊢
  obtain ⟨summary, hsummary, description, hdescription, parameters, hparameters, get, hget, post,
    hpost, put, hput, delete, hdelete, patch, hpatch, options, hoptions, head, hhead, trace, htrace,
    rfl⟩ := h
  exact ⟨summary, Fields.optional_again readsBack_text hf hsummary (hwritten 0),
    description, Fields.optional_again readsBack_text hf hdescription (hwritten 1),
    parameters, Fields.list_again readsBack_parameterOrReference hf hparameters (hwritten 2),
    get, Fields.optional_again Operation.readsBack hf hget (hwritten 3),
    post, Fields.optional_again Operation.readsBack hf hpost (hwritten 4),
    put, Fields.optional_again Operation.readsBack hf hput (hwritten 5),
    delete, Fields.optional_again Operation.readsBack hf hdelete (hwritten 6),
    patch, Fields.optional_again Operation.readsBack hf hpatch (hwritten 7),
    options, Fields.optional_again Operation.readsBack hf hoptions (hwritten 8),
    head, Fields.optional_again Operation.readsBack hf hhead (hwritten 9),
    trace, Fields.optional_again Operation.readsBack hf htrace (hwritten 10), rfl⟩

end PathItem

/-! ## Components and descriptions -/

namespace Components

/-- The values of the fields, in order. -/
def fieldValues (c : Components) : List (Option Json) :=
  [tableValue (tableMembers Schema.toJson c.schemas),
    tableValue (tableMembers (OrReference.toJson Response.toJson) c.responses),
    tableValue (tableMembers (OrReference.toJson Parameter.toJson) c.parameters),
    tableValue (tableMembers (OrReference.toJson RequestBody.toJson) c.requestBodies)]

theorem toJson_eq (c : Components) :
    c.toJson = .object (recordMembers ((fieldsOf fields).map (·.1)) c.fieldValues) := by
  rw [toJson]
  simp only [List.append_assoc, objectMember?_eq, fieldsOf, fields, fieldValues, List.map_cons,
    List.map_nil, recordMembers, List.append_nil]

theorem readsBack : ReadsBack ofContent? toJson := by
  refine .record (by decide) (fun _ => rfl) toJson_eq (fun _ => Nat.le_refl 4)
    fun f f' c hf h hwritten => ?_
  simp only [bind_eq_some_iff, Option.pure_def, Option.some_inj] at h ⊢
  obtain ⟨schemas, hschemas, responses, hresponses, parameters, hparameters, requestBodies,
    hrequestBodies, rfl⟩ := h
  exact ⟨schemas, Fields.table_again Schema.readsBack_schema hf hschemas (hwritten 0),
    responses, Fields.table_again readsBack_responseOrReference hf hresponses (hwritten 1),
    parameters, Fields.table_again readsBack_parameterOrReference hf hparameters (hwritten 2),
    requestBodies, Fields.table_again readsBack_bodyOrReference hf hrequestBodies (hwritten 3),
    rfl⟩

end Components

namespace Info

/-- The values of the fields, in order. -/
def fieldValues (i : Info) : List (Option Json) :=
  [some (.text i.title), i.description.map .text, some (.text i.version)]

theorem toJson_eq (i : Info) :
    i.toJson = .object (recordMembers ((fieldsOf fields).map (·.1)) i.fieldValues) := by
  rw [toJson]
  simp only [List.append_assoc, textMember?, fieldsOf, fields, fieldValues, List.map_cons,
    List.map_nil, recordMembers, List.append_nil]
  rfl

theorem readsBack : ReadsBack ofContent? toJson := by
  refine .record (by decide) (fun _ => rfl) toJson_eq (fun _ => Nat.le_refl 3)
    fun f f' i hf h hwritten => ?_
  simp only [bind_eq_some_iff, Option.pure_def, Option.some_inj] at h ⊢
  obtain ⟨title, htitle, description, hdescription, version, hversion, rfl⟩ := h
  exact ⟨title, Fields.required_again readsBack_text hf htitle (hwritten 0),
    description, Fields.optional_again readsBack_text hf hdescription (hwritten 1),
    version, Fields.required_again readsBack_text hf hversion (hwritten 2), rfl⟩

end Info

namespace Description

/-- The values of the fields, in order. -/
def fieldValues (d : Description) : List (Option Json) :=
  [some (.text d.openapi), some d.info.toJson,
    tableValue (tableMembers PathItem.toJson d.paths), d.components.map Components.toJson]

theorem toJson_eq (d : Description) :
    d.toJson = .object (recordMembers ((fieldsOf fields).map (·.1)) d.fieldValues) := by
  rw [toJson]
  simp only [List.append_assoc, objectMember?_eq, fieldsOf, fields, fieldValues, List.map_cons,
    List.map_nil, recordMembers, List.append_nil]
  rfl

theorem readsBack : ReadsBack ofContent? toJson := by
  refine .record (by decide) (fun _ => rfl) toJson_eq (fun _ => Nat.le_refl 4)
    fun f f' d hf h hwritten => ?_
  simp only [bind_eq_some_iff, Option.pure_def, Option.some_inj] at h ⊢
  obtain ⟨openapi, hopenapi, info, hinfo, paths, hpaths, components, hcomponents, rfl⟩ := h
  exact ⟨openapi, Fields.required_again readsBack_text hf hopenapi (hwritten 0),
    info, Fields.required_again Info.readsBack hf hinfo (hwritten 1),
    paths, Fields.table_again PathItem.readsBack hf hpaths (hwritten 2),
    components, Fields.optional_again Components.readsBack hf hcomponents (hwritten 3), rfl⟩

end Description

/-! ## Texts -/

theorem exists_content_of_readAs {α : Type} {format : Format} {shape : Shape}
    {decode : Content → Option α} {text : String} {a : α}
    (h : readAs format shape decode text = .ok a) :
    ∃ c, contentOf format shape text = .ok c ∧ decode c = some a := by
  unfold readAs at h
  split at h
  · cases h
  · rename_i c hc
    split at h
    · cases h
      exact ⟨c, hc, by assumption⟩
    · cases h

theorem Description.exists_content_of_read {format : Format} {text : String} {d : Description}
    (h : Description.read format text = .ok d) :
    (∃ c, contentOf format Description.shape text = .ok c ∧
      Description.ofContent? c = some d) ∧ d.supported = true := by
  rw [read] at h
  split at h
  · cases h
  · rename_i d' hread
    have hchecked : d' = d ∧ d'.supported = true := by
      rw [checked] at h
      split at h
      · cases h
        exact ⟨rfl, by assumption⟩
      · cases h
    obtain ⟨rfl, hsupported⟩ := hchecked
    exact ⟨exists_content_of_readAs hread, hsupported⟩

end ProviderSchema.OpenApi
