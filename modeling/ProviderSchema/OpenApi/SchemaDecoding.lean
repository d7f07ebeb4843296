import ProviderSchema.Document.Shape
import ProviderSchema.Document.Table
import ProviderSchema.OpenApi.Schema

/-!
# Reading schemas

`Schema.ofContent?` reads a schema from the content of a node. A mapping with a text under `$ref` is
a reference whatever else it holds; everything else has to be an inline schema, a record whose
fields are listed in `Schema.fieldList`. The children are read by recursion on the content, the
keywords by looking the fields up.
-/

namespace ProviderSchema.OpenApi

namespace TypeSet

/-- A type name or a list of type names. -/
def ofContent? : Content → Option TypeSet
  | .text name => some (.single (.ofText name))
  | .array items => (Content.texts? items).map fun names => .several (names.map .ofText)
  | _ => none

end TypeSet

/-- Free values in order. -/
def freeValues? : Content → Option (List Json)
  | .array items => Content.toJsonItems? items
  | _ => none

namespace Schema

/-- The fields of an inline schema. -/
def fieldList : FieldList :=
  [("type", .optional), ("format", .optional), ("title", .optional), ("description", .optional),
    ("default", .optional), ("nullable", .optional), ("deprecated", .optional),
    ("properties", .defaulted), ("required", .defaulted), ("additionalProperties", .optional),
    ("minProperties", .optional), ("maxProperties", .optional), ("items", .optional),
    ("allOf", .defaulted), ("oneOf", .defaulted), ("anyOf", .defaulted), ("enum", .defaulted),
    ("minimum", .optional), ("maximum", .optional), ("minLength", .optional),
    ("maxLength", .optional), ("minItems", .optional), ("maxItems", .optional),
    ("uniqueItems", .optional), ("readOnly", .optional), ("writeOnly", .optional)]

/-- The keywords of a schema, from its fields. -/
def keywords? (f : Fields) : Option Keywords := do
  return {
    type := ← f.optional 0 TypeSet.ofContent?
    format := ← f.optional 1 Content.text?
    title := ← f.optional 2 Content.text?
    description := ← f.optional 3 Content.text?
    default := ← f.optional 4 Content.toJson?
    nullable := ← f.optional 5 Content.bool?
    deprecated := ← f.optional 6 Content.bool?
    required := ← f.defaulted 8 [] Content.textList?
    minProperties := ← f.optional 10 Content.natural?
    maxProperties := ← f.optional 11 Content.natural?
    enum := ← f.defaulted 16 [] freeValues?
    minimum := ← f.optional 17 Content.float?
    maximum := ← f.optional 18 Content.float?
    minLength := ← f.optional 19 Content.natural?
    maxLength := ← f.optional 20 Content.natural?
    minItems := ← f.optional 21 Content.natural?
    maxItems := ← f.optional 22 Content.natural?
    uniqueItems := ← f.optional 23 Content.bool?
    readOnly := ← f.optional 24 Content.bool?
    writeOnly := ← f.optional 25 Content.bool? }

/-- The target of a reference, if the content is a mapping that is one. -/
def referenceTarget? (entries : List (Key × Content)) : Option String := do
  let fields ← Content.entryFields? [("$ref", .required)] [] entries
  Fields.required fields 0 Content.text?

/-- An inline schema, from the content it is read from and the children found in it. -/
def inline? (content : Content) (children : Option (Children Schema)) : Option Schema := do
  let fields ← content.fields? fieldList
  return .inline (← keywords? fields) (← children)

/-- A schema that is written as a mapping. -/
def ofEntries? (entries : List (Key × Content)) (children : Option (Children Schema)) :
    Option Schema :=
  match referenceTarget? entries with
  | some target => some (.reference target)
  | none => inline? (.object entries) children

/-- The fields of a schema that hold schemas. -/
inductive ChildField where
  | properties
  | additional
  | items
  | allOf
  | oneOf
  | anyOf
deriving DecidableEq, Repr

/-- The child field at a position among the fields of a schema. -/
def ChildField.at? : Nat → Option ChildField
  | 7 => some .properties
  | 9 => some .additional
  | 12 => some .items
  | 13 => some .allOf
  | 14 => some .oneOf
  | 15 => some .anyOf
  | _ => none

/-- The child field that a key names. -/
def ChildField.ofKey? (key : Key) : Option ChildField :=
  match Content.fieldIndex? fieldList key with
  | .ok (some i) => ChildField.at? i
  | _ => none

/-- The children with a list of schemas in one of the three places for lists. -/
def withMembers (done : Children Schema) (schemas : List Schema) :
    ChildField → Option (Children Schema)
  | .allOf => some { done with allOf := schemas }
  | .oneOf => some { done with oneOf := schemas }
  | .anyOf => some { done with anyOf := schemas }
  | _ => none

mutual

/-- A reference or an inline schema. -/
def ofContent? : Content → Option Schema
  | .object entries => ofEntries? entries (childrenOfEntries? {} entries)
  | .array items => inline? (.array items) (childrenOfItems? 0 {} items)
  | _ => none

/-- The children found in a mapping, added to those found before. -/
def childrenOfEntries? (done : Children Schema) :
    List (Key × Content) → Option (Children Schema)
  | [] => some done
  | (key, value) :: rest =>
    match childOf? (ChildField.ofKey? key) done value with
    | some done => childrenOfEntries? done rest
    | none => none

/-- The children found in a list of fields, starting at a position. -/
def childrenOfItems? (index : Nat) (done : Children Schema) :
    List Content → Option (Children Schema)
  | [] => some done
  | value :: rest =>
    match childOf? (ChildField.at? index) done value with
    | some done => childrenOfItems? (index + 1) done rest
    | none => none

/-- The children with those of one field. A `null` is as if an optional field were missing; a list
under `items` is a tuple of schemas before it is a schema that is written as a list. -/
def childOf? (field : Option ChildField) (done : Children Schema) :
    Content → Option (Children Schema)
  | .object entries =>
    match field with
    | none => some done
    | some .properties => (table? [] entries).map fun t => { done with properties := t }
    | some .additional =>
      (ofEntries? entries (childrenOfEntries? {} entries)).map fun s =>
        { done with additional := some (.schema s) }
    | some .items =>
      (ofEntries? entries (childrenOfEntries? {} entries)).map fun s =>
        { done with items := some (.schema s) }
    | some _ => none
  | .array items =>
    match field with
    | none => some done
    | some .properties => none
    | some .additional =>
      (inline? (.array items) (childrenOfItems? 0 {} items)).map fun s =>
        { done with additional := some (.schema s) }
    | some .items =>
      match list? items with
      | some schemas => some { done with items := some (.tuple schemas) }
      | none =>
        (inline? (.array items) (childrenOfItems? 0 {} items)).map fun s =>
          { done with items := some (.schema s) }
    | some place => (list? items).bind fun schemas => withMembers done schemas place
  | .bool b =>
    match field with
    | none => some done
    | some .additional => some { done with additional := some (.allowed b) }
    | some .items => some { done with items := some (.allowed b) }
    | some _ => none
  | .null =>
    match field with
    | none | some .additional | some .items => some done
    | some _ => none
  | _ => if field.isNone then some done else none

/-- A table of schemas, added to those found before. -/
def table? (done : List (String × Schema)) :
    List (Key × Content) → Option (List (String × Schema))
  | [] => some done
  | (.name name, value) :: rest =>
    match ofContent? value with
    | some schema => table? (Table.put name schema done) rest
    | none => none
  | (_, _) :: _ => none

/-- A list of schemas. -/
def list? : List Content → Option (List Schema)
  | [] => some []
  | item :: rest =>
    match ofContent? item, list? rest with
    | some schema, some schemas => some (schema :: schemas)
    | _, _ => none

end

/-- An inline schema, where a reference is not looked for. -/
def inlineOfContent? : Content → Option (Keywords × Children Schema)
  | .object entries => pair (.object entries) (childrenOfEntries? {} entries)
  | .array items => pair (.array items) (childrenOfItems? 0 {} items)
  | _ => none
where
  pair (content : Content) (children : Option (Children Schema)) :
      Option (Keywords × Children Schema) := do
    let fields ← content.fields? fieldList
    return (← keywords? fields, ← children)

end Schema

end ProviderSchema.OpenApi
