import ProviderSchema.Attribute.Basic

/-!
# Merging attributes

Attributes that describe one thing come from several sources, in order of priority.
`mergeAttributes` adds one more source to what is there: attributes with a new name are added at the
end, and of an attribute that is there already only a missing description, missing nested attributes
and missing fields are filled in. Where the shapes disagree nothing is filled in;
`attributeMismatches` lists where they do.
-/

namespace ProviderSchema

/-- The traits with the description of a source of lower priority, if there is none yet. The empty
description counts as none. -/
def Traits.filledFrom (target source : Traits) : Traits :=
  let missing := match target.description with
    | some d => d = ""
    | none => true
  match source.description with
  | some d => if missing && d ≠ "" then { target with description := some d } else target
  | none => target

namespace Attribute

mutual

/-- An attribute with what a source of lower priority adds to it. -/
def merge (target : Attribute) : Attribute → Attribute
  | .scalar _ traits shape =>
    match target with
    | .scalar name traits' shape' =>
      if shape'.kind = shape.kind then .scalar name (traits'.filledFrom traits) shape' else target
    | _ => target
  | .collection _ traits kind element =>
    match target with
    | .collection name traits' kind' element' =>
      if kind' = kind then
        .collection name (traits'.filledFrom traits) kind' (element'.merge element)
      else target
    | _ => target
  | .nested _ traits kind attributes =>
    match target with
    | .nested name traits' kind' attributes' =>
      if kind' = kind then
        .nested name (traits'.filledFrom traits) kind' (mergeAll attributes' attributes)
      else target
    | _ => target
  | .single _ traits attributes =>
    match target with
    | .single name traits' attributes' =>
      .single name (traits'.filledFrom traits) (mergeAll attributes' attributes)
    | _ => target

/-- Attributes with what a source of lower priority adds to them. -/
def mergeAll (target : List Attribute) : List Attribute → List Attribute
  | [] => target
  | source :: rest =>
    mergeAll (upsert (·.name = source.name) (fun a => merge a source) source target) rest

end

mutual

/-- Where an attribute and a source of lower priority disagree. -/
def mismatches (path : String) (target : Attribute) : Attribute → List Mismatch
  | .scalar _ _ shape =>
    if target.shapeName = shape.kind.name then []
    else [⟨path, target.shapeName, shape.kind.name⟩]
  | .collection _ _ kind element =>
    match target with
    | .collection _ _ kind' element' =>
      if kind' = kind then element'.mismatches path element
      else [⟨path, kind'.name, kind.name⟩]
    | _ => [⟨path, target.shapeName, kind.name⟩]
  | .nested _ _ kind attributes =>
    match target with
    | .nested _ _ kind' attributes' =>
      if kind' = kind then allMismatches path attributes' attributes
      else [⟨path, target.shapeName, kind.name ++ "_nested"⟩]
    | _ => [⟨path, target.shapeName, kind.name ++ "_nested"⟩]
  | .single _ _ attributes =>
    match target with
    | .single _ _ attributes' => allMismatches path attributes' attributes
    | _ => [⟨path, target.shapeName, "single_nested"⟩]

/-- Where attributes and a source of lower priority disagree. -/
def allMismatches (path : String) (target : List Attribute) : List Attribute → List Mismatch
  | [] => []
  | source :: rest =>
    (match target.find? (·.name = source.name) with
      | some a => mismatches (below path source.name) a source
      | none => [])
      ++ allMismatches path (mergeAll target [source]) rest

end

end Attribute

/-- Attributes merged with one source after the other. -/
def mergeAttributes (target : List Attribute) (sources : List (List Attribute)) : List Attribute :=
  sources.foldl Attribute.mergeAll target

/-- The disagreements met while attributes are merged with one source after the other. -/
def attributeMismatches (target : List Attribute) : List (List Attribute) → List Mismatch
  | [] => []
  | source :: rest =>
    Attribute.allMismatches "" target source
      ++ attributeMismatches (Attribute.mergeAll target source) rest

end ProviderSchema
