import ProviderSchema.Json.ShapedReading
import ProviderSchema.OpenApi.Decoding
import ProviderSchema.Yaml.ShapedReading

/-!
# Reading descriptions from texts

A description, or a schema alone, is read from a text in one of two formats. Only descriptions of
the third generation are accepted.
-/

namespace ProviderSchema.OpenApi

/-- The format of a text. -/
inductive Format where
  | yaml
  | json
deriving DecidableEq, Repr

/-- Why a text was not read. -/
inductive ReadingError where
  /-- The text is no YAML document of the wanted shape. -/
  | yaml
  /-- The text is no JSON document of the wanted shape. -/
  | json (fault : Fault)
  | unsupportedVersion (version : String)
deriving DecidableEq, Repr

/-- What is said about a reading error. The readers' own words for faults of the grammar are not
part of it. -/
def ReadingError.message : ReadingError → String
  | .yaml => "failed to parse YAML: "
  | .json (.data message) => "failed to parse JSON: " ++ message
  | .json _ => "failed to parse JSON: "
  | .unsupportedVersion version => "unsupported OpenAPI version: " ++ version

/-- The content of a text in a format, as a shape wants it. -/
def contentOf (format : Format) (shape : Shape) (text : String) : Except ReadingError Content :=
  match format with
  | .yaml =>
    match Yaml.contentOf? shape text with
    | some content => .ok content
    | none => .error .yaml
  | .json =>
    match Json.contentOf shape text with
    | .ok content => .ok content
    | .error fault => .error (.json fault)

/-- What a text stands for, when its content is decoded by `decode`. -/
def readAs {α : Type} (format : Format) (shape : Shape) (decode : Content → Option α)
    (text : String) : Except ReadingError α :=
  match contentOf format shape text with
  | .error e => .error e
  | .ok content =>
    match decode content with
    | some a => .ok a
    | none =>
      .error <| match format with
        | .yaml => .yaml
        | .json => .json (.noAlternative shape.wanted)

/-- A schema, or a reference to one, from a text. -/
def Schema.read (format : Format) (text : String) : Except ReadingError Schema :=
  readAs format schemaShape Schema.ofContent? text

/-- The keywords and children of an inline schema, from a text. -/
def Schema.readInline (format : Format) (text : String) :
    Except ReadingError (Keywords × Children Schema) :=
  readAs format Schema.inlineShape Schema.inlineOfContent? text

/-- A description whose version is supported. -/
def Description.checked (d : Description) : Except ReadingError Description :=
  if d.supported then .ok d else .error (.unsupportedVersion d.openapi)

/-- A description from a text. -/
def Description.read (format : Format) (text : String) : Except ReadingError Description :=
  match readAs format Description.shape Description.ofContent? text with
  | .error e => .error e
  | .ok d => d.checked

end ProviderSchema.OpenApi
