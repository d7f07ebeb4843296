import ProviderSchema.Proofs.Attribute.NameLists

/-!
# The fragments of a tree of attributes

A list of attributes, an attribute and the shape of a value are fragments of one
tree.  A fragment has parts, each at a segment: the attributes of a list and the
fields of an object at their names, and what a collection of values holds at its
members.  A position is a list of segments, and `Fragment.at?` is what stands
there.

What passes from the parts on to the fragment holds of all fragments
(`Fragment.inductionOnParts`).  If names are unique, each part is what stands at
its segment (`Fragment.Unique.child?_eq_some`).
-/

namespace ProviderSchema

/-- A step down in a tree of attributes: to the attribute or the field of a name, or
to the members of a collection of values. -/
inductive Segment where
  | named (name : String)
  | members
deriving DecidableEq, Repr

/-- A path after one more step.  The members of a collection add nothing to it. -/
def Segment.extend (path : String) : Segment → String
  | .named name => below path name
  | .members => path

/-- What stands at a position of a tree of attributes. -/
inductive Fragment where
  | list (attributes : List Attribute)
  | item (a : Attribute)
  | value (t : ElementType)

namespace Fragment

/-- Attributes as parts, each under its name. -/
def ofAttributes (attributes : List Attribute) : List (Segment × Fragment) :=
  attributes.map fun a => (.named a.name, .item a)

/-- Fields as parts, each under its name. -/
def ofFields (fields : List (String × ElementType)) : List (Segment × Fragment) :=
  fields.map fun f => (.named f.1, .value f.2)

/-- The parts of a fragment, in order. -/
def parts : Fragment → List (Segment × Fragment)
  | .list attributes => ofAttributes attributes
  | .item (.scalar ..) => []
  | .item (.collection _ _ _ element) => [(.members, .value element)]
  | .item (.nested _ _ _ attributes) => ofAttributes attributes
  | .item (.single _ _ attributes) => ofAttributes attributes
  | .value (.scalar _) => []
  | .value (.collection _ element) => [(.members, .value element)]
  | .value (.object fields) => ofFields fields

/-- The first part at a segment. -/
def lookup (parts : List (Segment × Fragment)) (segment : Segment) : Option Fragment :=
  (parts.find? fun part => part.1 = segment).map (·.2)

/-- The part of a fragment at a segment. -/
def child? (f : Fragment) (segment : Segment) : Option Fragment := lookup f.parts segment

/-- What stands at a position below a fragment. -/
def at? : Fragment → List Segment → Option Fragment
  | f, [] => some f
  | f, segment :: rest => (f.child? segment).bind (·.at? rest)

/-- The name of the outermost shape.  Lists of attributes are of one shape. -/
def shapeName : Fragment → String
  | .list _ => ""
  | .item a => a.shapeName
  | .value t => t.shapeName

/-- The shape of what stands at a position. -/
def shapeAt? (f : Fragment) (position : List Segment) : Option String :=
  (f.at? position).map shapeName

@[simp] theorem at?_nil (f : Fragment) : f.at? [] = some f := rfl

theorem at?_cons (f : Fragment) (segment : Segment) (rest : List Segment) :
    f.at? (segment :: rest) = (f.child? segment).bind (·.at? rest) := rfl

theorem sizeOf_lt_of_mem_ofAttributes {attributes : List Attribute} {part : Segment × Fragment}
    (h : part ∈ ofAttributes attributes) : sizeOf part.2 < 1 + sizeOf attributes := by
  obtain ⟨a, ha, rfl⟩ := List.mem_map.mp h
  have hlt := List.sizeOf_lt_of_mem ha
  rw [item.sizeOf_spec]
  omega

theorem sizeOf_lt_of_mem_parts {f : Fragment} {part : Segment × Fragment} (h : part ∈ f.parts) :
    sizeOf part.2 < sizeOf f := by
  cases f with
  | list attributes =>
    have hlt := sizeOf_lt_of_mem_ofAttributes h
    rwa [list.sizeOf_spec]
  | item a =>
    rw [item.sizeOf_spec]
    cases a with
    | scalar => cases h
    | collection name traits kind element =>
      obtain rfl := List.mem_singleton.mp h
      rw [value.sizeOf_spec, Attribute.collection.sizeOf_spec]
      omega
    | nested name traits kind attributes =>
      have hlt := sizeOf_lt_of_mem_ofAttributes h
      rw [Attribute.nested.sizeOf_spec]
      omega
    | single name traits attributes =>
      have hlt := sizeOf_lt_of_mem_ofAttributes h
      rw [Attribute.single.sizeOf_spec]
      omega
  | value t =>
    rw [value.sizeOf_spec]
    cases t with
    | scalar => cases h
    | collection kind t =>
      obtain rfl := List.mem_singleton.mp h
      rw [value.sizeOf_spec, ElementType.collection.sizeOf_spec]
      omega
    | object fields =>
      obtain ⟨field, hfield, rfl⟩ := List.mem_map.mp h
      have hlt := List.sizeOf_lt_of_mem hfield
      obtain ⟨name, t⟩ := field
      rw [Prod.mk.sizeOf_spec] at hlt
      rw [value.sizeOf_spec, ElementType.object.sizeOf_spec]
      dsimp only
      omega

/-- What passes from the parts on to the fragment holds of all fragments. -/
theorem inductionOnParts {motive : Fragment → Prop}
    (step : ∀ f : Fragment, (∀ part ∈ f.parts, motive part.2) → motive f) (f : Fragment) :
    motive f :=
  step f fun part h =>
    have := sizeOf_lt_of_mem_parts h
    inductionOnParts step part.2
termination_by sizeOf f

/-! ## Unique names -/

/-- No name occurs twice in a list below the fragment. -/
def Unique : Fragment → Prop
  | .list attributes => UniqueNames attributes
  | .item a => a.NamesBelow List.Nodup
  | .value t => t.FieldNames List.Nodup

theorem nodup_ofAttributes {attributes : List Attribute} :
    ((ofAttributes attributes).map (·.1)).Nodup ↔ (attributes.map Attribute.name).Nodup := by
  have hsegments : (ofAttributes attributes).map (·.1) =
      (attributes.map Attribute.name).map Segment.named := by
    simp [ofAttributes]
  rw [hsegments]
  exact List.nodup_map_iff fun _ _ heq => Segment.named.inj heq

theorem nodup_ofFields {fields : List (String × ElementType)} :
    ((ofFields fields).map (·.1)).Nodup ↔ (fields.map (·.1)).Nodup := by
  have hsegments : (ofFields fields).map (·.1) = (fields.map (·.1)).map Segment.named := by
    simp [ofFields]
  rw [hsegments]
  exact List.nodup_map_iff fun _ _ heq => Segment.named.inj heq

variable {f : Fragment}

theorem Unique.nodup_parts (h : f.Unique) : (f.parts.map (·.1)).Nodup := by
  cases f with
  | list attributes => exact nodup_ofAttributes.mpr h.names
  | item a =>
    cases h with
    | scalar => exact List.nodup_nil
    | collection => exact List.nodup_singleton _
    | nested _ _ _ names => exact nodup_ofAttributes.mpr names
    | single _ _ names => exact nodup_ofAttributes.mpr names
  | value t =>
    cases h with
    | scalar => exact List.nodup_nil
    | collection => exact List.nodup_singleton _
    | object names => exact nodup_ofFields.mpr names

theorem Unique.of_mem_parts (h : f.Unique) {part : Segment × Fragment} (hpart : part ∈ f.parts) :
    part.2.Unique := by
  have hattributes {attributes : List Attribute}
      (each : ∀ a ∈ attributes, a.NamesBelow List.Nodup) (hpart : part ∈ ofAttributes attributes) :
      part.2.Unique := by
    obtain ⟨a, ha, rfl⟩ := List.mem_map.mp hpart
    exact each a ha
  cases f with
  | list attributes => exact hattributes h.each hpart
  | item a =>
    cases h with
    | scalar => cases hpart
    | collection _ _ _ below =>
      obtain rfl := List.mem_singleton.mp hpart
      exact below
    | nested _ _ _ _ each => exact hattributes each hpart
    | single _ _ _ each => exact hattributes each hpart
  | value t =>
    cases h with
    | scalar => cases hpart
    | collection _ below =>
      obtain rfl := List.mem_singleton.mp hpart
      exact below
    | object _ each =>
      obtain ⟨field, hfield, rfl⟩ := List.mem_map.mp hpart
      exact each field hfield

theorem Unique.child?_eq_some (h : f.Unique) {part : Segment × Fragment} (hpart : part ∈ f.parts) :
    f.child? part.1 = some part.2 := by
  rw [child?, lookup, find?_key_eq_some h.nodup_parts hpart]
  rfl

theorem mem_parts_of_child?_eq_some {segment : Segment} {g : Fragment}
    (h : f.child? segment = some g) : (segment, g) ∈ f.parts := by
  obtain ⟨part, hpart, rfl⟩ := Option.map_eq_some_iff.mp h
  have hsegment : part.1 = segment := by simpa using List.find?_some hpart
  exact hsegment ▸ List.mem_of_find?_eq_some hpart

@[simp] theorem lookup_ofAttributes_named (attributes : List Attribute) (name : String) :
    lookup (ofAttributes attributes) (.named name) =
      (attributes.find? (·.name = name)).map item := by
  simp [lookup, ofAttributes, List.find?_map, Function.comp_def]

@[simp] theorem lookup_ofAttributes_members (attributes : List Attribute) :
    lookup (ofAttributes attributes) .members = none := by
  simp [lookup, ofAttributes]

@[simp] theorem lookup_ofFields_named (fields : List (String × ElementType)) (name : String) :
    lookup (ofFields fields) (.named name) =
      (fields.find? (·.1 = name)).map fun field => value field.2 := by
  simp [lookup, ofFields, List.find?_map, Function.comp_def]

@[simp] theorem lookup_ofFields_members (fields : List (String × ElementType)) :
    lookup (ofFields fields) .members = none := by
  simp [lookup, ofFields]

end Fragment

end ProviderSchema
