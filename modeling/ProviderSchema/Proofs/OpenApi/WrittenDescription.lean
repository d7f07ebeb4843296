import ProviderSchema.Json.Printer
import ProviderSchema.Proofs.Json.Numbers
import ProviderSchema.Proofs.Json.ValueTree
import ProviderSchema.Proofs.OpenApi.DescriptionReadBack

/-!
# Written descriptions fit their shape

Before a description is decoded, its document is read along `Description.shape`.  What
is written for a record fits the shape of the record (`WritesShape`): a field that is
an alternative because it reads back, all others field by field.  So a description
that is written as a JSON value is read from that value as from a text, shape and all
(`Description.ofJson_toJson_of_read`).
-/

namespace ProviderSchema.OpenApi

open Json (FieldFits Fits listValue recordMembers tableValue)

/-- What is read from finite content and written fits a shape. -/
def WritesShape {α : Type} (read : Content → Option α) (write : α → Json) (shape : Shape) : Prop :=
  ∀ c : Content, c.Finite → ∀ a, read c = some a → Fits shape (write a)

theorem writesShape_text : WritesShape Content.text? .text .text := fun _ _ s _ => Json.fits_text s

theorem writesShape_flag : WritesShape Content.bool? .bool .flag := fun _ _ b _ => Json.fits_flag b

section Combinators

variable {α : Type} {read : Content → Option α} {write : α → Json} {shape : Shape}

/-- What reads back is one of the alternatives. -/
theorem writesShape_choice (h : ReadsBack read write) (name : String) :
    WritesShape read write (.choice name (fits read)) := by
  intro c hc a ha
  refine .choice ?_
  rw [fits, (h c hc).again a ha]
  rfl

variable {f : Fields} {index : Nat} {name : String}

theorem WritesShape.required (h : WritesShape read write shape) (hf : f.Finite) {a : α}
    (hread : f.required index read = some a) :
    FieldFits (name, .required, shape) (some (write a)) := by
  rw [Fields.required, Option.bind_eq_some_iff] at hread
  obtain ⟨c, hc, ha⟩ := hread
  refine ⟨fun json hjson => ?_, fun _ => Option.some_ne_none _⟩
  cases hjson
  exact h c (hf index c hc) a ha

theorem WritesShape.optional (h : WritesShape read write shape) (hbare : shape.bare = shape)
    (hf : f.Finite) {x : Option α} (hread : f.optional index read = some x) :
    FieldFits (name, .optional, .optional shape) (x.map write) := by
  refine ⟨fun json hjson => ?_, fun hpresence => by cases hpresence⟩
  obtain ⟨a, rfl, rfl⟩ := Option.map_eq_some_iff.mp hjson
  rw [Fields.optional] at hread
  split at hread
  · cases hread
  · rename_i c hc
    have ha : read c = some a := by
      cases c <;> simp_all [Content.optional?]
    exact (h c (hf index c hc) a ha).optional hbare

theorem WritesShape.list (h : WritesShape read write shape) (hf : f.Finite) {l : List α}
    (hread : f.defaulted index [] (Content.list? read) = some l) :
    FieldFits (name, .defaulted, .list shape) (listValue (l.map write)) := by
  refine ⟨fun json hjson => ?_, fun hpresence => by cases hpresence⟩
  rw [Fields.defaulted] at hread
  split at hread
  · cases hread
    cases hjson
  · rename_i c hc
    have hitems : ∀ a ∈ l, Fits shape (write a) :=
      Content.forall_of_list? (fun item hitem => h item ((hf index c hc).of_holds hitem)) hread
    unfold listValue at hjson
    split at hjson
    · cases hjson
    · cases hjson
      exact .list (by simpa using hitems)

theorem WritesShape.table (h : WritesShape read write shape) (hf : f.Finite)
    {t : List (String × α)} (hread : f.defaulted index [] (Content.table? read) = some t) :
    FieldFits (name, .defaulted, .table shape) (tableValue (tableMembers write t)) := by
  refine ⟨fun json hjson => ?_, fun hpresence => by cases hpresence⟩
  rw [Fields.defaulted] at hread
  split at hread
  · cases hread
    cases hjson
  · rename_i c hc
    obtain ⟨-, hvalues⟩ := Content.forall_of_table? (P := fun a => Fits shape (write a))
      (fun part hpart => h part ((hf index c hc).of_holds hpart)) hread
    unfold tableValue at hjson
    split at hjson
    · cases hjson
    · cases hjson
      refine .table fun m hm => ?_
      obtain ⟨entry, hentry, rfl⟩ := List.mem_map.mp hm
      exact hvalues entry hentry

/-- A record fits if its fields do. -/
theorem WritesShape.record (name : String) {fields : List (String × Presence × Shape)}
    (hnodup : ((fieldsOf fields).map (·.1)).Nodup) {decode : Fields → Option α}
    {values : α → List (Option Json)}
    (hread : ∀ c : Content, read c = (c.fields? (fieldsOf fields)).bind decode)
    (hwrite : ∀ a, write a = .object (recordMembers ((fieldsOf fields).map (·.1)) (values a)))
    (hfields : ∀ f a, f.Finite → decode f = some a → List.Forall₂ FieldFits fields (values a)) :
    WritesShape read write (.record name fields) := by
  intro c hc a ha
  have hnames : (fieldsOf fields).map (·.1) = fields.map (·.1) := by
    rw [fieldsOf, List.map_map]
    rfl
  rw [hread, Option.bind_eq_some_iff] at ha
  obtain ⟨f, hf, hdecode⟩ := ha
  rw [hwrite, hnames]
  exact .record name (hnames ▸ hnodup) (hfields f a (hc.fields? hf) hdecode)

end Combinators

/-! ## Records -/

theorem Operation.writesShape : WritesShape ofContent? toJson shape := by
  refine .record "Operation" (by decide) (fun _ => rfl) toJson_eq fun f o hf h => ?_
  simp only [bind_eq_some_iff, Option.pure_def, Option.some_inj] at h
  obtain ⟨operationId, hoperationId, summary, hsummary, description, hdescription, parameters,
    hparameters, requestBody, hrequestBody, responses, hresponses, deprecated, hdeprecated,
    rfl⟩ := h
  exact .cons (writesShape_text.optional rfl hf hoperationId)
    (.cons (writesShape_text.optional rfl hf hsummary)
      (.cons (writesShape_text.optional rfl hf hdescription)
        (.cons ((writesShape_choice readsBack_parameterOrReference _).list hf hparameters)
          (.cons ((writesShape_choice readsBack_bodyOrReference _).optional rfl hf hrequestBody)
            (.cons ((writesShape_choice readsBack_responseOrReference _).table hf hresponses)
              (.cons (writesShape_flag.optional rfl hf hdeprecated) .nil))))))

theorem PathItem.writesShape : WritesShape ofContent? toJson shape := by
  refine .record "PathItem" (by decide) (fun _ => rfl) toJson_eq fun f i hf h => ?_
  simp only [bind_eq_some_iff, Option.pure_def, Option.some_inj] at h
  obtain ⟨summary, hsummary, description, hdescription, parameters, hparameters, get, hget, post,
    hpost, put, hput, delete, hdelete, patch, hpatch, options, hoptions, head, hhead, trace, htrace,
    rfl⟩ := h
  have hoperation {name : String} {index : Nat} {o : Option Operation}
      (ho : f.optional index Operation.ofContent? = some o) :
      FieldFits (name, .optional, .optional Operation.shape) (o.map Operation.toJson) :=
    Operation.writesShape.optional rfl hf ho
  exact .cons (writesShape_text.optional rfl hf hsummary)
    (.cons (writesShape_text.optional rfl hf hdescription)
      (.cons ((writesShape_choice readsBack_parameterOrReference _).list hf hparameters)
        (.cons (hoperation hget) (.cons (hoperation hpost) (.cons (hoperation hput)
          (.cons (hoperation hdelete) (.cons (hoperation hpatch) (.cons (hoperation hoptions)
            (.cons (hoperation hhead) (.cons (hoperation htrace) .nil))))))))))

theorem Components.writesShape : WritesShape ofContent? toJson shape := by
  refine .record "Components" (by decide) (fun _ => rfl) toJson_eq fun f c hf h => ?_
  simp only [bind_eq_some_iff, Option.pure_def, Option.some_inj] at h
  obtain ⟨schemas, hschemas, responses, hresponses, parameters, hparameters, requestBodies,
    hrequestBodies, rfl⟩ := h
  exact .cons ((writesShape_choice Schema.readsBack_schema _).table hf hschemas)
    (.cons ((writesShape_choice readsBack_responseOrReference _).table hf hresponses)
      (.cons ((writesShape_choice readsBack_parameterOrReference _).table hf hparameters)
        (.cons ((writesShape_choice readsBack_bodyOrReference _).table hf hrequestBodies) .nil)))

theorem Info.writesShape : WritesShape ofContent? toJson shape := by
  refine .record "Info" (by decide) (fun _ => rfl) toJson_eq fun f i hf h => ?_
  simp only [bind_eq_some_iff, Option.pure_def, Option.some_inj] at h
  obtain ⟨title, htitle, description, hdescription, version, hversion, rfl⟩ := h
  exact .cons (writesShape_text.required hf htitle)
    (.cons (writesShape_text.optional rfl hf hdescription)
      (.cons (writesShape_text.required hf hversion) .nil))

namespace Description

theorem writesShape : WritesShape ofContent? toJson shape := by
  refine .record "OpenApiSpec" (by decide) (fun _ => rfl) toJson_eq fun f d hf h => ?_
  simp only [bind_eq_some_iff, Option.pure_def, Option.some_inj] at h
  obtain ⟨openapi, hopenapi, info, hinfo, paths, hpaths, components, hcomponents, rfl⟩ := h
  exact .cons (writesShape_text.required hf hopenapi)
    (.cons (Info.writesShape.required hf hinfo)
      (.cons (PathItem.writesShape.table hf hpaths)
        (.cons (Components.writesShape.optional rfl hf hcomponents) .nil)))

/-- A description from a JSON value, which is read as the text of the value would be. -/
def ofJson (json : Json) : Except ReadingError Description :=
  match (Json.Source.ofJson json).read shape with
  | .error fault => .error (.json fault)
  | .ok content =>
    match ofContent? content with
    | some d => d.checked
    | none => .error (.json (.noAlternative shape.wanted))

/-- A description that is read from a JSON text and written is read again as it was. -/
theorem ofJson_toJson_of_read {text : String} {d : Description} (h : read .json text = .ok d) :
    ofJson d.toJson = .ok d := by
  obtain ⟨⟨c, hc, hdecode⟩, hsupported⟩ := exists_content_of_read h
  have hfinite : c.Finite := by
    rw [contentOf] at hc
    split at hc
    · cases hc
      exact Json.finite_contentOf (by assumption)
    · cases hc
  have hfits : Fits shape d.toJson := writesShape c hfinite d hdecode
  have hagain : ofContent? (.ofJson d.toJson) = some d := (readsBack c hfinite).again d hdecode
  have hchecked : d.checked = .ok d := by rw [checked, if_pos hsupported]
  rw [ofJson, hfits]
  dsimp only
  rw [hagain]
  exact hchecked

/-- The JSON text of a description with one schema, which admits one and a half. -/
def sampleText : String :=
  (Json.object [
    ("openapi", .text "3.0.0"),
    ("info", .object [("title", .text "Samples"), ("version", .text "1.0.0")]),
    ("paths", .object []),
    ("components", .object [
      ("schemas", .object [
        ("Sample", .object [
          ("type", .array [.text "number"]),
          ("enum", .array [.float (.ofRatio false 3 2)])])])])]).compact

theorem ofJson_toJson_sampleText :
    ∃ d, read .json sampleText = .ok d ∧ ofJson d.toJson = .ok d := by
  have hread : ((read .json sampleText).toOption.map fun d => d.schemas.length) = some 1 := by
    decide +kernel
  obtain ⟨d, hd, -⟩ := exists_ok_of_toOption_map_eq_some hread
  exact ⟨d, hd, ofJson_toJson_of_read hd⟩

end Description

end ProviderSchema.OpenApi
