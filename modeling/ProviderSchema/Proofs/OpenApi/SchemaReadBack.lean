import ProviderSchema.OpenApi.Encoding
import ProviderSchema.Proofs.OpenApi.SchemaReading

/-!
# Schemas read back what was written

A schema that was read is the same schema when it is written and read again
(`readsBack_schema`).  An inline schema is written as a record
(`members_eq_recordMembers`), so its keywords are fields that are read again
(`keywords?_again`).  Its children are read by a recursion of their own; the values
of the record that are no children leave them alone (`childrenOfEntries?_again`).
-/

namespace ProviderSchema.OpenApi

open Json (listMember?_eq listValue objectMember?_eq recordMembers tableValue)

/-! ## Keywords -/

theorem readsBack_type : ReadsBack TypeSet.ofContent? TypeSet.toJson := fun c _ => by
  refine ⟨fun type h => ?_, fun type _ _ => ?_⟩
  · cases c with
    | text name =>
      cases h
      rw [TypeSet.toJson, Content.ofJson, TypeSet.ofContent?, TypeName.text_ofText]
    | array items =>
      rw [TypeSet.ofContent?, Option.map_eq_some_iff] at h
      obtain ⟨names, _, rfl⟩ := h
      have htexts : (names.map TypeName.ofText).map (fun t => Json.text t.text) =
          names.map .text := by
        simp [Function.comp_def]
      rw [TypeSet.toJson, htexts, Content.ofJson, TypeSet.ofContent?, Content.texts?_ofJsonItems,
        Option.map_some]
    | _ => cases h
  · cases type <;> exact Json.noConfusion

theorem readsBack_texts : ReadsBack Content.textList? fun names => .array (names.map .text) :=
  fun _ _ => by
    refine ⟨fun names _ => ?_, fun _ _ _ => Json.noConfusion⟩
    rw [Content.ofJson, Content.textList?, Content.texts?_ofJsonItems]

theorem readsBack_values : ReadsBack freeValues? .array := fun c _ => by
  refine ⟨fun values h => ?_, fun _ _ _ => Json.noConfusion⟩
  cases c with
  | array items =>
    rw [Content.ofJson, freeValues?]
    exact Content.toJsonItems?_ofJsonItems (Content.forall_of_toJsonItems?
      (fun _ _ _ hv => Content.toJson?_ofJson_of_toJson? hv) h)
  | _ => cases h

namespace Schema

theorem tableToJson_eq_map (table : List (String × Schema)) :
    tableToJson table = table.map fun e => (e.1, e.2.toJson) := by
  induction table with
  | nil => rw [tableToJson, List.map_nil]
  | cons e rest ih =>
    obtain ⟨name, s⟩ := e
    rw [tableToJson, ih, List.map_cons]

theorem listToJson_eq_map (schemas : List Schema) :
    listToJson schemas = schemas.map toJson := by
  induction schemas with
  | nil => rw [listToJson, List.map_nil]
  | cons s rest ih => rw [listToJson, ih, List.map_cons]

/-- The values of the fields of an inline schema, in order. -/
def fieldValues (k : Keywords) (c : Children Schema) : List (Option Json) :=
  [k.type.map TypeSet.toJson, k.format.map .text, k.title.map .text, k.description.map .text,
    k.default, k.nullable.map .bool, k.deprecated.map .bool,
    tableValue (c.properties.map fun e => (e.1, e.2.toJson)), listValue (k.required.map .text),
    additionalToJson c.additional, k.minProperties.map fun n : Nat => .integer n,
    k.maxProperties.map fun n : Nat => .integer n, itemsToJson c.items,
    listValue (c.allOf.map toJson), listValue (c.oneOf.map toJson), listValue (c.anyOf.map toJson),
    listValue k.enum, k.minimum.map fun x => if x.isFinite then .float x else .null,
    k.maximum.map fun x => if x.isFinite then .float x else .null,
    k.minLength.map fun n : Nat => .integer n, k.maxLength.map fun n : Nat => .integer n,
    k.minItems.map fun n : Nat => .integer n, k.maxItems.map fun n : Nat => .integer n,
    k.uniqueItems.map .bool, k.readOnly.map .bool, k.writeOnly.map .bool]

theorem naturalMember?_eq (name : String) (value : Option Nat) :
    naturalMember? name value = Json.member? name (value.map fun n : Nat => .integer n) := by
  cases value <;> rfl

/-- An inline schema is written as a record. -/
theorem members_eq_recordMembers (k : Keywords) (c : Children Schema) :
    members k c = recordMembers (fieldList.map (·.1)) (fieldValues k c) := by
  obtain ⟨properties, additional, items, allOf, oneOf, anyOf⟩ := c
  -- One list of members for each of the fields.
  show _ ++ _ ++ _ ++ _ ++ _ ++ _ ++ _ ++ _ ++ _ ++ _ ++ _ ++ _ ++ _ ++ _ ++ _ ++ _ ++ _ ++ _
    ++ _ ++ _ ++ _ ++ _ ++ _ ++ _ ++ _ ++ _ = _
  simp only [List.append_assoc, listMember?_eq, objectMember?_eq, tableToJson_eq_map,
    listToJson_eq_map, textMember?, flagMember?, naturalMember?_eq, boundMember?]
  simp only [fieldList, fieldValues, List.map_cons, List.map_nil, recordMembers, List.append_nil]

/-- The keywords that were read are read again. -/
theorem keywords?_again {f f' : Fields} (hf : f.Finite) {k : Keywords} (c : Children Schema)
    (h : keywords? f = some k) (hwritten : ∀ i, f'.Written i (fieldValues k c)[i]?.join) :
    keywords? f' = some k := by
  simp only [keywords?, bind_eq_some_iff, Option.pure_def, Option.some_inj] at h ⊢
  obtain ⟨type, htype, format, hformat, title, htitle, description, hdescription,
    default, hdefault, nullable, hnullable, deprecated, hdeprecated, required, hrequired,
    minProperties, hminProperties, maxProperties, hmaxProperties, enum, henum,
    minimum, hminimum, maximum, hmaximum, minLength, hminLength, maxLength, hmaxLength,
    minItems, hminItems, maxItems, hmaxItems, uniqueItems, huniqueItems, readOnly, hreadOnly,
    writeOnly, hwriteOnly, rfl⟩ := h
  refine ⟨type, ?_, format, ?_, title, ?_, description, ?_, default, ?_, nullable, ?_,
    deprecated, ?_, required, ?_, minProperties, ?_, maxProperties, ?_, enum, ?_, minimum, ?_,
    maximum, ?_, minLength, ?_, maxLength, ?_, minItems, ?_, maxItems, ?_, uniqueItems, ?_,
    readOnly, ?_, writeOnly, ?_, rfl⟩
  · exact Fields.optional_again readsBack_type hf htype (hwritten 0)
  · exact Fields.optional_again readsBack_text hf hformat (hwritten 1)
  · exact Fields.optional_again readsBack_text hf htitle (hwritten 2)
  · exact Fields.optional_again readsBack_text hf hdescription (hwritten 3)
  · exact Fields.optional_again readsBack_free hf hdefault
      (by rw [Option.map_id_fun]; exact hwritten 4)
  · exact Fields.optional_again readsBack_flag hf hnullable (hwritten 5)
  · exact Fields.optional_again readsBack_flag hf hdeprecated (hwritten 6)
  · exact Fields.defaulted_again readsBack_texts hf (by simp) hrequired (hwritten 8)
  · exact Fields.optional_again readsBack_natural hf hminProperties (hwritten 10)
  · exact Fields.optional_again readsBack_natural hf hmaxProperties (hwritten 11)
  · exact Fields.defaulted_again readsBack_values hf (by simp) henum (hwritten 16)
  · exact Fields.optional_again readsBack_number hf hminimum (hwritten 17)
  · exact Fields.optional_again readsBack_number hf hmaximum (hwritten 18)
  · exact Fields.optional_again readsBack_natural hf hminLength (hwritten 19)
  · exact Fields.optional_again readsBack_natural hf hmaxLength (hwritten 20)
  · exact Fields.optional_again readsBack_natural hf hminItems (hwritten 21)
  · exact Fields.optional_again readsBack_natural hf hmaxItems (hwritten 22)
  · exact Fields.optional_again readsBack_flag hf huniqueItems (hwritten 23)
  · exact Fields.optional_again readsBack_flag hf hreadOnly (hwritten 24)
  · exact Fields.optional_again readsBack_flag hf hwriteOnly (hwritten 25)

/-! ## Children -/

/-- What is written under `additionalProperties`. -/
def additionalValue : Additional Schema → Json
  | .allowed b => .bool b
  | .schema s => s.toJson

/-- What is written under `items`. -/
def itemsValue : Items Schema → Json
  | .allowed b => .bool b
  | .tuple schemas => .array (schemas.map toJson)
  | .schema s => s.toJson

theorem additionalToJson_eq_map (a : Option (Additional Schema)) :
    additionalToJson a = a.map additionalValue := by
  rcases a with _ | (b | s) <;> rw [additionalToJson] <;> rfl

theorem itemsToJson_eq_map (a : Option (Items Schema)) :
    itemsToJson a = a.map itemsValue := by
  rcases a with _ | (b | schemas | s)
  · rw [itemsToJson, Option.map_none]
  · rw [itemsToJson, Option.map_some, itemsValue]
  · rw [itemsToJson, Option.map_some, itemsValue, listToJson_eq_map]
  · rw [itemsToJson, Option.map_some, itemsValue]

/-- A schema is written as an object. -/
theorem exists_toJson_eq_object (s : Schema) : ∃ members, s.toJson = .object members := by
  cases s with
  | reference target => exact ⟨_, by rw [toJson]⟩
  | inline k c => exact ⟨_, by rw [toJson]⟩

theorem toJson_ne_null (s : Schema) : s.toJson ≠ .null := by
  obtain ⟨members, hmembers⟩ := exists_toJson_eq_object s
  rw [hmembers]
  exact Json.noConfusion

theorem additionalValue_ne_null (a : Additional Schema) : additionalValue a ≠ .null := by
  cases a with
  | allowed b => exact Json.noConfusion
  | schema s => exact toJson_ne_null s

theorem itemsValue_ne_null (a : Items Schema) : itemsValue a ≠ .null := by
  cases a with
  | schema s => exact toJson_ne_null s
  | _ => exact Json.noConfusion

/-- An object is no flag, and no list either. -/
theorem additional?_toJson (s : Schema) :
    additional? (.ofJson s.toJson) = (ofContent? (.ofJson s.toJson)).map .schema := by
  obtain ⟨members, hmembers⟩ := exists_toJson_eq_object s
  rw [hmembers, Content.ofJson, additional?]
  simp

theorem items?_toJson (s : Schema) :
    items? (.ofJson s.toJson) = (ofContent? (.ofJson s.toJson)).map .schema := by
  obtain ⟨members, hmembers⟩ := exists_toJson_eq_object s
  rw [hmembers, Content.ofJson, items?] <;> simp

theorem readsBackAt_additional {c : Content} (h : ReadsBackAt ofContent? toJson c) :
    ReadsBackAt additional? additionalValue c := by
  refine ⟨fun a ha => ?_, fun a _ _ => additionalValue_ne_null a⟩
  cases a with
  | allowed b => rfl
  | schema s =>
    rw [additionalValue, additional?_toJson, h.again s (ofContent?_of_additional? ha),
      Option.map_some]

theorem readsBackAt_items {c : Content} (h : ReadsBackAt ofContent? toJson c)
    (hparts : ∀ part, c.Holds part → ReadsBackAt ofContent? toJson part) :
    ReadsBackAt items? itemsValue c := by
  refine ⟨fun a ha => ?_, fun a _ _ => itemsValue_ne_null a⟩
  cases a with
  | allowed b => rfl
  | tuple schemas =>
    have hlist := (ReadsBackAt.list hparts).again schemas (list?_of_items? ha)
    rw [Content.ofJson, Content.list?] at hlist
    rw [itemsValue, Content.ofJson, items?, hlist]
  | schema s =>
    rw [itemsValue, items?_toJson, h.again s (ofContent?_of_items? ha), Option.map_some]

/-- The children with what is written for the field at a position, if anything is. -/
def childWritten? (index : Nat) (done : Children Schema) (value : Option Json) :
    Option (Children Schema) :=
  match value with
  | none => some done
  | some json => childOf? (ChildField.at? index) done (.ofJson json)

/-- The children with what is written for the fields from a position on. -/
def childrenWritten? (index : Nat) (done : Children Schema) :
    List (Option Json) → Option (Children Schema)
  | [] => some done
  | value :: values =>
    (childWritten? index done value).bind fun done => childrenWritten? (index + 1) done values

theorem nodup_fieldList : (fieldList.map (·.1)).Nodup := by decide

/-- The fields of a record are read by their positions. -/
theorem childrenOfEntries?_recordMembers {before rest : FieldList}
    (hfields : fieldList = before ++ rest) (done : Children Schema) {values : List (Option Json)}
    (hlength : values.length ≤ rest.length) :
    childrenOfEntries? done (Content.ofJsonMembers (recordMembers (rest.map (·.1)) values)) =
      childrenWritten? before.length done values := by
  induction values generalizing before rest done with
  | nil =>
    have hnil : recordMembers (rest.map (·.1)) [] = [] := by cases rest <;> rfl
    rw [hnil, Content.ofJsonMembers, childrenOfEntries?, childrenWritten?]
  | cons value values ih =>
    cases rest with
    | nil => exact absurd hlength (Nat.not_succ_le_zero _)
    | cons field rest =>
      have hsplit : fieldList = (before ++ [field]) ++ rest := by simp [hfields]
      have hrest : ∀ done, childrenOfEntries? done
          (Content.ofJsonMembers (recordMembers (rest.map (·.1)) values)) =
            childrenWritten? (before.length + 1) done values := by
        intro done
        rw [ih hsplit done (Nat.le_of_succ_le_succ hlength), List.length_append,
          List.length_singleton]
      rw [List.map_cons, recordMembers, childrenWritten?]
      cases value with
      | none => exact hrest done
      | some json =>
        have hkey : ChildField.ofKey? (.name field.1) = ChildField.at? before.length := by
          rw [ChildField.ofKey?, Content.fieldIndex?_name hfields nodup_fieldList]
        rw [Json.member?, List.singleton_append, Content.ofJsonMembers, childrenOfEntries?, hkey,
          childWritten?]
        cases childOf? (ChildField.at? before.length) done (.ofJson json) with
        | none => rfl
        | some next => exact hrest next

theorem childWritten?_of_at?_eq_none {index : Nat} (h : ChildField.at? index = none)
    (done : Children Schema) (value : Option Json) :
    childWritten? index done value = some done := by
  cases value with
  | none => rfl
  | some json => rw [childWritten?, h, childOf?_none]

theorem childrenWritten?_cons {index : Nat} {done next : Children Schema} {value : Option Json}
    {values : List (Option Json)} (h : childWritten? index done value = some next) :
    childrenWritten? index done (value :: values) = childrenWritten? (index + 1) next values := by
  rw [childrenWritten?, h, Option.bind_some]

/-- What is written for a field that holds no schemas is passed over. -/
theorem childrenWritten?_cons_of_none {index : Nat} (h : ChildField.at? index = none)
    {done : Children Schema} {value : Option Json} {values : List (Option Json)} :
    childrenWritten? index done (value :: values) = childrenWritten? (index + 1) done values :=
  childrenWritten?_cons (childWritten?_of_at?_eq_none h done value)

section ChildWritten

variable {done : Children Schema}

theorem childWritten?_properties (hdone : done.properties = []) {table : List (String × Schema)}
    (h : Content.table? ofContent? (.ofJson (.object (table.map fun e => (e.1, e.2.toJson)))) =
      some table) :
    childWritten? 7 done (tableValue (table.map fun e => (e.1, e.2.toJson))) =
      some { done with properties := table } := by
  cases table with
  | nil =>
    have hnone : { done with properties := [] } = done := by rw [← hdone]
    rw [hnone]
    rfl
  | cons e rest =>
    show childOf? (some .properties) done _ = _
    rw [childOf?_properties, h, Option.map_some]

theorem childWritten?_additional (hdone : done.additional = none) {a : Option (Additional Schema)}
    (h : ∀ b, a = some b → additional? (.ofJson (additionalValue b)) = some b) :
    childWritten? 9 done (additionalToJson a) = some { done with additional := a } := by
  rw [additionalToJson_eq_map]
  cases a with
  | none =>
    have hnone : { done with additional := none } = done := by rw [← hdone]
    rw [hnone]
    rfl
  | some b =>
    show childOf? (some .additional) done _ = _
    rw [childOf?_additional, Content.optional?_ofJson (additionalValue_ne_null b), h b rfl]
    rfl

theorem childWritten?_items (hdone : done.items = none) {a : Option (Items Schema)}
    (h : ∀ b, a = some b → items? (.ofJson (itemsValue b)) = some b) :
    childWritten? 12 done (itemsToJson a) = some { done with items := a } := by
  rw [itemsToJson_eq_map]
  cases a with
  | none =>
    have hnone : { done with items := none } = done := by rw [← hdone]
    rw [hnone]
    rfl
  | some b =>
    show childOf? (some .items) done _ = _
    rw [childOf?_items, Content.optional?_ofJson (itemsValue_ne_null b), h b rfl]
    rfl

theorem childWritten?_members {index : Nat} {field : ChildField}
    (hindex : ChildField.at? index = some field)
    (hfield : field = .allOf ∨ field = .oneOf ∨ field = .anyOf)
    (hdone : withMembers done [] field = some done) {schemas : List Schema}
    (h : Content.list? ofContent? (.ofJson (.array (schemas.map toJson))) = some schemas) :
    childWritten? index done (listValue (schemas.map toJson)) =
      withMembers done schemas field := by
  cases schemas with
  | nil => exact hdone.symm
  | cons s rest =>
    show childOf? (ChildField.at? index) done _ = _
    rw [hindex, childOf?_members _ _ hfield]
    exact (congrArg (Option.bind · _) h).trans (Option.bind_some _ _)

end ChildWritten

/-- The children that were read from parts that read back are read again. -/
theorem childrenOfEntries?_again {content : Content} {c : Children Schema}
    (hfrom : ChildrenFrom content c)
    (hbelow : ∀ part, part.Below content → ReadsBackAt ofContent? toJson part) (k : Keywords) :
    childrenOfEntries? {} (Content.ofJsonMembers (members k c)) = some c := by
  have hparts : ∀ part, content.Holds part → ∀ sub, part.Holds sub →
      ReadsBackAt ofContent? toJson sub := fun part hpart sub hsub =>
    hbelow sub (hsub.below.trans hpart.below)
  have htable : Content.table? ofContent?
      (.ofJson (.object (c.properties.map fun e => (e.1, e.2.toJson)))) = some c.properties := by
    rcases hfrom.properties with hnil | ⟨part, hpart, htable⟩
    · rw [hnil]
      rfl
    · exact (ReadsBackAt.table (hparts part hpart)).again _ htable
  have hlist : ∀ schemas : List Schema, schemas = [] ∨ (∃ part, content.Holds part ∧
      Content.list? ofContent? part = some schemas) →
      Content.list? ofContent? (.ofJson (.array (schemas.map toJson))) = some schemas := by
    rintro schemas (rfl | ⟨part, hpart, hschemas⟩)
    · rfl
    · exact (ReadsBackAt.list (hparts part hpart)).again _ hschemas
  have hadditional : ∀ b, c.additional = some b →
      additional? (.ofJson (additionalValue b)) = some b := by
    intro b hb
    obtain ⟨part, hpart, hread⟩ := hfrom.additional b hb
    exact (readsBackAt_additional (hbelow part hpart.below)).again b hread
  have hitems : ∀ b, c.items = some b → items? (.ofJson (itemsValue b)) = some b := by
    intro b hb
    obtain ⟨part, hpart, hread⟩ := hfrom.items b hb
    exact (readsBackAt_items (hbelow part hpart.below) (hparts part hpart)).again b hread
  have hvalues : childrenWritten? 0 {} (fieldValues k c) = some c := by
    -- The fields up to the properties, the properties, and so on.
    rw [fieldValues]
    iterate 7 rw [childrenWritten?_cons_of_none rfl]
    rw [childrenWritten?_cons (childWritten?_properties rfl htable),
      childrenWritten?_cons_of_none rfl,
      childrenWritten?_cons (childWritten?_additional rfl hadditional)]
    iterate 2 rw [childrenWritten?_cons_of_none rfl]
    rw [childrenWritten?_cons (childWritten?_items rfl hitems),
      childrenWritten?_cons
        (childWritten?_members rfl (.inl rfl) rfl (hlist _ hfrom.allOf)),
      childrenWritten?_cons
        (childWritten?_members rfl (.inr (.inl rfl)) rfl (hlist _ hfrom.oneOf)),
      childrenWritten?_cons
        (childWritten?_members rfl (.inr (.inr rfl)) rfl (hlist _ hfrom.anyOf))]
    iterate 10 rw [childrenWritten?_cons_of_none rfl]
    rfl
  have hrecord : childrenOfEntries? {} (Content.ofJsonMembers
      (recordMembers (fieldList.map (·.1)) (fieldValues k c))) =
        childrenWritten? 0 {} (fieldValues k c) :=
    childrenOfEntries?_recordMembers (List.nil_append _).symm {} (Nat.le_refl 26)
  rw [members_eq_recordMembers, hrecord]
  exact hvalues

/-! ## References and inline schemas -/

theorem referenceTarget?_ofJson_reference (target : String) :
    referenceTarget? (Content.ofJsonMembers [("$ref", .text target)]) = some target := by
  rfl

/-- A record without a field `$ref` is no reference. -/
theorem referenceTarget?_recordMembers {names : List String} (h : "$ref" ∉ names)
    (values : List (Option Json)) :
    referenceTarget? (Content.ofJsonMembers (recordMembers names values)) = none := by
  have hfields : Content.entryFields? [("$ref", .required)] []
      (Content.ofJsonMembers (recordMembers names values)) = some [] := by
    refine Content.entryFields?_of_forall_ne (fun m hm => ?_) []
    rw [List.map_singleton, List.mem_singleton]
    intro heq
    have hname : m.1 ∈ names := Json.mem_recordMembers hm
    rw [heq] at hname
    exact h hname
  rw [referenceTarget?, hfields]
  rfl

/-- A schema that was read is the same schema when it is written and read again. -/
theorem readsBack_schema : ReadsBack ofContent? toJson := fun content hfinite => by
  induction content using Content.inductionOnParts with
  | step content ih =>
    refine ⟨fun s hs => ?_, fun s _ _ => toJson_ne_null s⟩
    cases s with
    | reference target =>
      rw [toJson, Content.ofJson, ofContent?, ofEntries?, referenceTarget?_ofJson_reference]
    | inline k c =>
      obtain ⟨⟨f, hfields, hkeywords⟩, hfrom⟩ := fields_of_ofContent?_eq_inline hs
      have hchildren := childrenOfEntries?_again hfrom
        (fun part hpart => ih part hpart (hfinite.of_below hpart)) k
      have hlength : (fieldValues k c).length ≤ fieldList.length := Nat.le_refl 26
      obtain ⟨f', hfields', hwritten⟩ :=
        Content.exists_fields?_recordMembers nodup_fieldList hlength
      have hagain := keywords?_again (hfinite.fields? hfields) c hkeywords hwritten
      have hinline : "$ref" ∉ fieldList.map (·.1) := by decide
      rw [toJson, Content.ofJson, ofContent?, ofEntries?, hchildren, members_eq_recordMembers,
        referenceTarget?_recordMembers hinline]
      exact inline?_eq_some_iff.mpr (pair_eq_some_iff.mpr ⟨f', hfields', hagain, rfl⟩)

end Schema

end ProviderSchema.OpenApi
