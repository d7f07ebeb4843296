import ProviderSchema.Proofs.Node.BuiltAlike
import ProviderSchema.Proofs.Node.IgnoredErrors
import ProviderSchema.Proofs.Text.ByteOrder

/-!
# Canonical trees

What is built of an object does not depend on how its properties are written.  Every list
of attributes and every list of fields is in byte order, it has one entry for every
identifier that a key of the object has, and the entry is made of the least key with that
identifier, which also decides whether it is required (`CanonicalAttributes`,
`CanonicalShape`).

A list of attributes lacks what is at an ignored path, a list of fields lacks nothing: the
shape of a value is made without a look at what is ignored.  So a tree is canonical with
all that is ignored left out exactly if no field is at an ignored path
(`Builder.canonicalAttributes_of_attributes_eq_ok`).
-/

namespace ProviderSchema

open OpenApi
open Attribute (dottedPath pathOf)

/-! ## The paths of fields -/

/-- A path leads to a field of an object in a shape. -/
inductive ElementType.FieldAt : ElementType → List String → Prop where
  | member {kind : CollectionKind} {element : ElementType} {path : List String}
      (h : element.FieldAt path) : FieldAt (.collection kind element) path
  | here {fields : List (String × ElementType)} {field : String × ElementType}
      (h : field ∈ fields) : FieldAt (.object fields) [field.1]
  | inside {fields : List (String × ElementType)} {field : String × ElementType}
      {path : List String} (h : field ∈ fields) (rest : field.2.FieldAt path) :
      FieldAt (.object fields) (field.1 :: path)

/-- A path leads from an attribute, through nested ones, to a field in the shape of a
collection. -/
inductive Attribute.FieldBelow : Attribute → List String → Prop where
  | element {a : Attribute} {element : ElementType} {path : List String}
      (h : a.element? = some element) (field : element.FieldAt path) : FieldBelow a path
  | nested {a child : Attribute} {children : List Attribute} {path : List String}
      (h : a.children? = some children) (hmem : child ∈ children) (rest : child.FieldBelow path) :
      FieldBelow a (child.name :: path)

/-! ## Canonical lists of names -/

/-- Names are in byte order, and they are the identifiers of keys, less those at the paths
that are left out. -/
structure CanonicalNames (leftOut keys path names : List String) : Prop where
  ascending : names.Pairwise fun x y => Text.bytes x < Text.bytes y
  mem_iff : ∀ name, name ∈ names ↔
    name ∈ keys.map Text.identifier ∧ dottedPath (path ++ [name]) ∉ leftOut

namespace Node

/-- The keys of the properties that the schema of a node declares. -/
def keys (n : Node) : List String := n.facts.children.properties.map (·.1)

/-- A key is the least one in byte order of those with its identifier, and the schema that
is declared under it stands for a node. -/
structure HasLeast (n : Node) (key : String) (child : Node) : Prop where
  least : ∀ other ∈ n.keys, Text.identifier other = Text.identifier key →
    Text.bytes key ≤ Text.bytes other
  declared : ∃ s, (key, s) ∈ n.facts.children.properties ∧
    (Schema.branch (n.facts.depth + 1) (locationBelow n.facts.location ["properties", key]) s).bind
      Branch.toNode = .ok child

end Node

/-! ## Canonical shapes and attributes -/

mutual

/-- A shape is that of a node at a path, with canonical lists of fields: a field at one of
the paths that are left out is missing. -/
inductive CanonicalShape (leftOut : List String) : List String → Node → ElementType → Prop where
  | scalar {path : List String} {n : Node} {kind : ScalarKind} (h : n.content = .scalar kind) :
      CanonicalShape leftOut path n (.scalar kind)
  | collection {path : List String} {n m : Node} {kind : CollectionKind} {element : ElementType}
      (h : n.content = .members kind (.ok m)) (member : CanonicalShape leftOut path m element) :
      CanonicalShape leftOut path n (.collection kind element)
  | object {path : List String} {n : Node} {fields : List (String × ElementType)}
      (h : n.content = .record) (names : CanonicalNames leftOut n.keys path (fields.map (·.1)))
      (each : ∀ field ∈ fields, CanonicalField leftOut path n field) :
      CanonicalShape leftOut path n (.object fields)

/-- A field is made of the least key with its name as identifier. -/
inductive CanonicalField (leftOut : List String) :
    List String → Node → String × ElementType → Prop where
  | mk {path : List String} {n child : Node} {key : String} {type : ElementType}
      (least : n.HasLeast key child)
      (shape : CanonicalShape leftOut (path ++ [Text.identifier key]) child type) :
      CanonicalField leftOut path n (Text.identifier key, type)

end

mutual

/-- An attribute is that of a node at a path, with canonical lists of attributes, and with
canonical lists of fields in its shape. -/
inductive CanonicalAttribute (b : Builder) (leftOut : List String) :
    List String → String → Computability → Node → Attribute → Prop where
  | scalar {path : List String} {name : String} {c : Computability} {n : Node} {kind : ScalarKind}
      (h : n.content = .scalar kind) :
      CanonicalAttribute b leftOut path name c n (b.scalar name n.facts c kind)
  | collection {path : List String} {name : String} {c : Computability} {n m : Node}
      {kind : CollectionKind} {element : ElementType} (h : n.content = .members kind (.ok m))
      (hm : m.content ≠ .record) (member : CanonicalShape leftOut path m element) :
      CanonicalAttribute b leftOut path name c n
        (.collection name (b.collectionTraits n.facts c kind) kind element)
  | nested {path : List String} {name : String} {c : Computability} {n m : Node}
      {kind : CollectionKind} {attributes : List Attribute} (h : n.content = .members kind (.ok m))
      (hm : m.content = .record) (nested : CanonicalAttributes b leftOut path m attributes) :
      CanonicalAttribute b leftOut path name c n
        (.nested name (b.collectionTraits n.facts c kind) kind attributes)
  | single {path : List String} {name : String} {c : Computability} {n : Node}
      {attributes : List Attribute} (h : n.content = .record)
      (nested : CanonicalAttributes b leftOut path n attributes) :
      CanonicalAttribute b leftOut path name c n (.single name (b.traits n.facts c) attributes)

/-- Attributes are those of an object at a path, in order, less those at ignored paths. -/
inductive CanonicalAttributes (b : Builder) (leftOut : List String) :
    List String → Node → List Attribute → Prop where
  | mk {path : List String} {n : Node} {attributes : List Attribute}
      (names : CanonicalNames b.ignores n.keys path (attributes.map Attribute.name))
      (each : ∀ a ∈ attributes, CanonicalEntry b leftOut path n a) :
      CanonicalAttributes b leftOut path n attributes

/-- An attribute of an object is made of the least key with its name as identifier, and is
required if this key is. -/
inductive CanonicalEntry (b : Builder) (leftOut : List String) :
    List String → Node → Attribute → Prop where
  | mk {path : List String} {n child : Node} {key : String} {a : Attribute}
      (least : n.HasLeast key child)
      (built : CanonicalAttribute b leftOut (path ++ [Text.identifier key])
        (Text.identifier key)
        (if key ∈ n.facts.keywords.required then .required else b.flavor.unrequired) child a) :
      CanonicalEntry b leftOut path n a

end

section LeftOut

variable {leftOut : List String} {b : Builder}

theorem CanonicalAttribute.name_eq {path : List String} {name : String} {c : Computability}
    {n : Node} {a : Attribute} (h : CanonicalAttribute b leftOut path name c n a) :
    a.name = name := by
  cases h <;> rfl

/-- No field of a canonical shape is left out. -/
theorem CanonicalShape.notMem_of_fieldAt {path rest : List String} {n : Node} {t : ElementType}
    (h : CanonicalShape leftOut path n t) (hfield : t.FieldAt rest) :
    dottedPath (path ++ rest) ∉ leftOut := by
  induction hfield generalizing path n with
  | member _ ih =>
    obtain - | ⟨-, member⟩ := h
    exact ih member
  | here hmem =>
    obtain - | - | ⟨-, names, -⟩ := h
    exact ((names.mem_iff _).mp (List.mem_map_of_mem hmem)).2
  | inside hmem _ ih =>
    obtain - | - | ⟨-, -, each⟩ := h
    obtain ⟨-, shape⟩ := each _ hmem
    rw [List.append_cons]
    exact ih shape

/-- The nested attributes are those of some object at the same path. -/
theorem CanonicalAttribute.exists_canonicalAttributes {path : List String} {name : String}
    {c : Computability} {n : Node} {a : Attribute}
    (h : CanonicalAttribute b leftOut path name c n a)
    {children : List Attribute} (hchildren : a.children? = some children) :
    ∃ m, CanonicalAttributes b leftOut path m children := by
  cases h with
  | nested _ _ nested =>
    cases hchildren
    exact ⟨_, nested⟩
  | single _ nested =>
    cases hchildren
    exact ⟨_, nested⟩
  | _ => cases hchildren

theorem CanonicalAttribute.notMem_of_fieldBelow {path rest : List String} {name : String}
    {c : Computability} {n : Node} {a : Attribute}
    (h : CanonicalAttribute b leftOut path name c n a)
    (hfield : a.FieldBelow rest) : dottedPath (path ++ rest) ∉ leftOut := by
  induction hfield generalizing path name c n with
  | element helement hfield =>
    cases h with
    | collection _ _ member =>
      cases helement
      exact member.notMem_of_fieldAt hfield
    | _ => cases helement
  | nested hchildren hmem _ ih =>
    obtain ⟨m, ⟨-, each⟩⟩ := h.exists_canonicalAttributes hchildren
    obtain ⟨-, built⟩ := each _ hmem
    rw [List.append_cons, built.name_eq]
    exact ih built

/-- No field is left out of canonical attributes. -/
theorem CanonicalAttributes.notMem_of_fieldBelow {path rest : List String} {n : Node}
    {attributes : List Attribute} (h : CanonicalAttributes b leftOut path n attributes)
    {a : Attribute} (ha : a ∈ attributes) (hfield : a.FieldBelow rest) :
    dottedPath (path ++ a.name :: rest) ∉ leftOut := by
  obtain ⟨-, each⟩ := h
  obtain ⟨-, built⟩ := each a ha
  rw [List.append_cons, built.name_eq]
  exact built.notMem_of_fieldBelow hfield

end LeftOut

/-! ## The properties of arranged nodes -/

namespace Node.Arranged

variable {n : Node}

theorem pairwise_bytes_name (h : n.Arranged) :
    (n.properties.map (·.1.name)).Pairwise fun x y => Text.bytes x < Text.bytes y :=
  h.pairwise_name.imp Text.bytes_lt_iff.mpr

theorem mem_map_name_iff (h : n.Arranged) {name : String} :
    name ∈ n.properties.map (·.1.name) ↔ name ∈ n.keys.map Text.identifier := by
  obtain ⟨harranged, -, -, -⟩ := h
  rw [harranged, mem_map_name_arrange_iff, Schema.propertyNodes_eq_map, keys, List.map_map,
    List.map_map]
  rfl

theorem hasLeast (h : n.Arranged) {p : Property} {child : Node}
    (hmem : (p, .ok child) ∈ n.properties) :
    p.name = Text.identifier p.original ∧ n.HasLeast p.original child := by
  obtain ⟨harranged, -, -, -⟩ := h
  rw [harranged] at hmem
  obtain ⟨hname, hentry⟩ := mem_of_mem_arrange hmem
  obtain ⟨s, hs, hbranch⟩ := Schema.mem_propertyNodes hentry
  refine ⟨hname, ?_, s, hs, Branch.bind_toNode_eq_ok_iff.mpr hbranch⟩
  intro other hother hidentifier
  obtain ⟨⟨other, t⟩, ht, rfl⟩ := List.mem_map.mp hother
  obtain ⟨_, hdeclared⟩ : ∃ node, (other, node) ∈ Schema.propertyNodes (n.facts.depth + 1)
      n.facts.location n.facts.children.properties := by
    rw [Schema.propertyNodes_eq_map]
    exact ⟨_, List.mem_map.mpr ⟨_, ht, rfl⟩⟩
  have hle := original_le_of_mem_arrange hmem hdeclared (hidentifier.trans hname.symm)
  exact fun hlt => absurd (Text.bytes_lt_iff.mp hlt) (not_lt.mpr hle)

/-- The names of properties that are not left out are canonical. -/
theorem canonicalNames_filter (h : n.Arranged) {path : List String}
    (hpath : ∀ name ∈ path, Text.isIdentifier name = true) (leftOut : List String) :
    CanonicalNames leftOut n.keys path
      ((n.properties.map (·.1.name)).filter fun name =>
        ProviderSchema.below (pathOf path) name ∉ leftOut) := by
  refine ⟨h.pairwise_bytes_name.sublist List.filter_sublist, fun name => ?_⟩
  rw [List.mem_filter, decide_eq_true_iff, h.mem_map_name_iff, ← Attribute.pathOf_concat]
  refine and_congr_right fun hname => ?_
  obtain ⟨key, -, rfl⟩ := List.mem_map.mp hname
  have hbelow : ∀ name ∈ path ++ [Text.identifier key], Text.isIdentifier name = true :=
    List.forall_mem_append.mpr
      ⟨hpath, List.forall_mem_singleton.mpr (Text.isIdentifier_identifier key)⟩
  rw [Attribute.pathOf_eq_dottedPath hbelow]

end Node.Arranged

/-! ## What is built is canonical -/

/-- What holds of the field of every property holds of all fields. -/
theorem Node.forall_mem_elementFields {Q : String × ElementType → Prop}
    {properties : List (Property × Except SchemaError Node)}
    (h : ∀ p child, (p, .ok child) ∈ properties → ∀ t, child.elementType = .ok t → Q (p.name, t))
    {fields : List (String × ElementType)} (hfields : elementFields properties = .ok fields) :
    ∀ field ∈ fields, Q field := by
  induction properties generalizing fields with
  | nil =>
    rw [elementFields] at hfields
    cases hfields
    simp
  | cons entry rest ih =>
    obtain ⟨p, child⟩ := entry
    obtain ⟨n, t, later, rfl, ht, hlater, rfl⟩ := elementFields_cons_eq_ok hfields
    rw [List.forall_mem_cons]
    exact ⟨h p n List.mem_cons_self t ht,
      ih (fun q m hmem => h q m (List.mem_cons_of_mem _ hmem)) hlater⟩

namespace Builder

variable {b : Builder} {leftOut : List String}

/-- Whatever is built of a node is canonical, unless a field is at a path that is left out. -/
structure BuildsCanonically (b : Builder) (leftOut : List String) (n : Node) : Prop where
  shape : ∀ path t, n.elementType = .ok t →
    (∀ rest, t.FieldAt rest → dottedPath (path ++ rest) ∉ leftOut) → CanonicalShape leftOut path n t
  named : ∀ path name c a, (∀ name ∈ path, Text.isIdentifier name = true) →
    b.named name c (pathOf path) n = .ok a →
      (∀ rest, a.FieldBelow rest → dottedPath (path ++ rest) ∉ leftOut) →
        CanonicalAttribute b leftOut path name c n a
  properties : ∀ path attributes, (∀ name ∈ path, Text.isIdentifier name = true) →
    b.propertyAttributes n.facts (pathOf path) n.properties = .ok attributes →
      (∀ a ∈ attributes, ∀ rest, a.FieldBelow rest →
        dottedPath (path ++ a.name :: rest) ∉ leftOut) →
          CanonicalAttributes b leftOut path n attributes

theorem canonicalShape_object {n : Node} (h : n.Arranged) (hrecord : n.content = .record)
    (hchildren : ∀ p child, (p, .ok child) ∈ n.properties → b.BuildsCanonically leftOut child)
    {path : List String} {fields : List (String × ElementType)}
    (hfields : Node.elementFields n.properties = .ok fields)
    (hfree : ∀ rest, (ElementType.object fields).FieldAt rest →
      dottedPath (path ++ rest) ∉ leftOut) :
    CanonicalShape leftOut path n (.object fields) := by
  have hnames : fields.map (·.1) = n.properties.map (·.1.name) := Node.map_fst_elementFields hfields
  have heach : ∀ field ∈ fields,
      (∀ rest, field.2.FieldAt rest → dottedPath (path ++ field.1 :: rest) ∉ leftOut) →
        CanonicalField leftOut path n field := by
    refine Node.forall_mem_elementFields (fun p child hmem t ht hbelow => ?_) hfields
    obtain ⟨hname, hleast⟩ := h.hasLeast hmem
    rw [hname] at hbelow ⊢
    refine .mk hleast ((hchildren p child hmem).shape _ t ht fun rest hrest => ?_)
    rw [List.append_assoc]
    exact hbelow rest hrest
  refine .object hrecord ⟨?_, fun name => ?_⟩ fun field hfield =>
    heach field hfield fun rest hrest => hfree _ (.inside hfield hrest)
  · rw [hnames]
    exact h.pairwise_bytes_name
  · rw [← h.mem_map_name_iff, ← hnames]
    refine ⟨fun hname => ⟨hname, ?_⟩, And.left⟩
    obtain ⟨field, hfield, rfl⟩ := List.mem_map.mp hname
    exact hfree _ (.here hfield)

theorem canonicalAttributes_properties {n : Node} (h : n.Arranged)
    (hchildren : ∀ p child, (p, .ok child) ∈ n.properties → b.BuildsCanonically leftOut child)
    {path : List String} (hpath : ∀ name ∈ path, Text.isIdentifier name = true)
    {attributes : List Attribute}
    (hattributes : b.propertyAttributes n.facts (pathOf path) n.properties = .ok attributes)
    (hfree : ∀ a ∈ attributes, ∀ rest, a.FieldBelow rest →
      dottedPath (path ++ a.name :: rest) ∉ leftOut) :
    CanonicalAttributes b leftOut path n attributes := by
  have heach : ∀ a ∈ attributes,
      (∀ rest, a.FieldBelow rest → dottedPath (path ++ a.name :: rest) ∉ leftOut) →
        CanonicalEntry b leftOut path n a := by
    refine forall_mem_propertyAttributes (fun p child hmem a hbuilt hbelow => ?_) hattributes
    obtain ⟨hname, hleast⟩ := h.hasLeast hmem
    have hidentifiers : ∀ name ∈ path ++ [Text.identifier p.original],
        Text.isIdentifier name = true :=
      List.forall_mem_append.mpr
        ⟨hpath, List.forall_mem_singleton.mpr (Text.isIdentifier_identifier p.original)⟩
    have hcomputability : b.computabilityOf n.facts p =
        if p.original ∈ n.facts.keywords.required then .required else b.flavor.unrequired := by
      simp [computabilityOf, Facts.isRequired]
    rw [named_name hbuilt, hname] at hbelow
    rw [hname, ← Attribute.pathOf_concat, hcomputability] at hbuilt
    refine .mk hleast ((hchildren p child hmem).named _ _ _ a hidentifiers hbuilt
      fun rest hrest => ?_)
    rw [List.append_assoc]
    exact hbelow rest hrest
  refine .mk ?_ fun a ha => heach a ha (hfree a ha)
  rw [map_name_propertyAttributes_eq_filter hattributes]
  exact h.canonicalNames_filter hpath b.ignores

theorem canonicalAttribute_collected {n m : Node} {kind : CollectionKind}
    (hcontent : n.content = .members kind (.ok m)) (hmember : b.BuildsCanonically leftOut m)
    {path : List String} (hpath : ∀ name ∈ path, Text.isIdentifier name = true) {name : String}
    {c : Computability} {a : Attribute}
    (ha : b.collected name (b.collectionTraits n.facts c kind) kind (pathOf path) (.ok m) = .ok a)
    (hfree : ∀ rest, a.FieldBelow rest → dottedPath (path ++ rest) ∉ leftOut) :
    CanonicalAttribute b leftOut path name c n a := by
  obtain ⟨_, heq, hbuilt⟩ := collected_eq_ok_iff.mp ha
  cases heq
  rcases hbuilt with ⟨hm, attributes, hattributes, rfl⟩ | ⟨hm, element, helement, rfl⟩
  · exact .nested hcontent (Node.content_eq_record_iff.mpr hm)
      (hmember.properties path attributes hpath hattributes fun a ha rest hrest =>
        hfree _ (.nested rfl ha hrest))
  · exact .collection hcontent (mt Node.content_eq_record_iff.mp hm)
      (hmember.shape path element helement fun rest hrest => hfree _ (.element rfl hrest))

theorem buildsCanonically (b : Builder) (leftOut : List String) {n : Node} (h : n.Arranged) :
    b.BuildsCanonically leftOut n := by
  induction h with
  | @mk n harranged each items mapValue ihproperties ihitems ihvalue =>
    have hn : n.Arranged := .mk harranged each items mapValue
    have hmember {kind : CollectionKind} {m : Node} (h : n.content = .members kind (.ok m)) :
        b.BuildsCanonically leftOut m := by
      cases Node.holds_of_content h with
      | property p hmem => exact ihproperties p m hmem
      | items hitems => exact ihitems m hitems
      | mapValue hvalue => exact ihvalue m hvalue
    refine ⟨fun path t ht hfree => ?_, fun path name c a hpath ha hfree => ?_,
      fun path attributes hpath => canonicalAttributes_properties hn ihproperties hpath⟩
    · rw [Node.elementType_eq_content] at ht
      cases hcontent : n.content with
      | scalar kind =>
        rw [hcontent] at ht
        cases ht
        exact .scalar hcontent
      | members kind member =>
        rw [hcontent] at ht
        obtain ⟨m, element, rfl, helement, rfl⟩ := Node.collectionType_eq_ok ht
        exact .collection hcontent ((hmember hcontent).shape path element helement
          fun rest hrest => hfree rest (.member hrest))
      | record =>
        rw [hcontent] at ht
        obtain ⟨fields, hfields, rfl⟩ := map_eq_ok_iff.mp ht
        exact canonicalShape_object hn hcontent ihproperties hfields hfree
    · rw [named_eq_content] at ha
      cases hcontent : n.content with
      | scalar kind =>
        rw [hcontent] at ha
        cases ha
        exact .scalar hcontent
      | members kind member =>
        rw [hcontent] at ha
        cases member with
        | error e => cases ha
        | ok m => exact canonicalAttribute_collected hcontent (hmember hcontent) hpath ha hfree
      | record =>
        rw [hcontent] at ha
        obtain ⟨attributes, hattributes, rfl⟩ := map_eq_ok_iff.mp ha
        exact .single hcontent (canonicalAttributes_properties hn ihproperties hpath hattributes
          fun a ha rest hrest => hfree _ (.nested rfl ha hrest))

/-- If the attributes of an object are built, they are canonical, on all levels, with all
fields and without the attributes that are ignored.  They are canonical without all that is
ignored exactly if no field is at an ignored path. -/
theorem canonicalAttributes_of_attributes_eq_ok {schema : Schema} {root n : Node}
    {steps : List Step} (hroot : schema.node = .ok root) (hreach : root.Reaches steps n)
    (description : Option String) {b : Builder} {attributes : List Attribute}
    (h : b.attributes (n.describedBy description) = .ok attributes) :
    CanonicalAttributes b [] [] (n.describedBy description) attributes ∧
      (CanonicalAttributes b b.ignores [] (n.describedBy description) attributes ↔
        ∀ a ∈ attributes, ∀ path, a.FieldBelow path → dottedPath (a.name :: path) ∉ b.ignores) := by
  have harranged : (n.describedBy description).Arranged :=
    ((Schema.arranged_of_node_eq_ok hroot).of_reaches hreach).describedBy description
  obtain ⟨-, hattributes⟩ := attributes_eq_ok_iff.mp h
  have hnames : ∀ name ∈ ([] : List String), Text.isIdentifier name = true := by simp
  refine ⟨?_, fun hcanonical a ha path hfield => hcanonical.notMem_of_fieldBelow ha hfield, ?_⟩
  · exact (b.buildsCanonically [] harranged).properties [] attributes hnames hattributes (by simp)
  · exact (b.buildsCanonically b.ignores harranged).properties [] attributes hnames hattributes

/-- Rows of cells, which have a note and a value. -/
def cellsSchema : Schema :=
  .inline { type := some (.single .array) }
    { items := some (.schema (.inline { type := some (.single .array) }
      { items := some (.schema (.inline { type := some (.single .object) }
        { properties := [("note", .inline { type := some (.single .string) } {}),
          ("value", .inline { type := some (.single .string) } {})] })) })) }

/-- A page of rows. -/
def pageSchema : Schema :=
  .inline { type := some (.single .object) } { properties := [("rows", cellsSchema)] }

/-- A page with a number that is written in two ways, of which one is required. -/
def numberedPageSchema : Schema :=
  .inline { type := some (.single .object), required := ["page_no"] }
    { properties := [("page_no", .inline { type := some (.single .string) } {}),
      ("pageNo", .inline { type := some (.single .integer) } {}), ("rows", cellsSchema)] }

/-- The name of the last attribute, a list of lists of objects, and the names of the fields of
these objects. -/
def lastFields? (attributes : List Attribute) : Option (String × List String) :=
  match attributes.getLast? with
  | some (.collection name _ _ (.collection _ (.object fields))) => some (name, fields.map (·.1))
  | _ => none

/-- The attributes are canonical, and the note is no attribute, so it is not left out. -/
theorem canonicalAttributes_of_attributes_eq_ok_numberedPage :
    ∃ root attributes, numberedPageSchema.node = .ok root ∧
      Builder.attributes { flavor := .resource, ignores := ["rows.note"] } root = .ok attributes ∧
      attributes.map (fun a => [a.name, a.shapeName, a.traits.computability.name]) =
        [["page_no", "int64", "computed_optional"], ["rows", "list", "computed_optional"]] ∧
      lastFields? attributes = some ("rows", ["note", "value"]) ∧
      CanonicalAttributes { flavor := .resource, ignores := ["rows.note"] } [] [] root
        attributes := by
  obtain ⟨root, hroot, hbuilt⟩ := exists_ok_of_toOption_map_eq_some
    (show numberedPageSchema.node.toOption.map (fun root =>
        (Builder.attributes { flavor := .resource, ignores := ["rows.note"] } root).toOption.map
          fun attributes =>
            (attributes.map fun a => [a.name, a.shapeName, a.traits.computability.name],
              lastFields? attributes)) =
      some (some
        ([["page_no", "int64", "computed_optional"], ["rows", "list", "computed_optional"]],
          some ("rows", ["note", "value"])))
      by decide +kernel)
  obtain ⟨attributes, hattributes, hseen⟩ := exists_ok_of_toOption_map_eq_some hbuilt
  obtain ⟨hlist, hfields⟩ := Prod.mk.inj hseen
  have hcanonical := (canonicalAttributes_of_attributes_eq_ok hroot (.here root) none
    (root.describedBy_none.symm ▸ hattributes)).1
  rw [Node.describedBy_none] at hcanonical
  exact ⟨root, attributes, hroot, hattributes, hlist, hfields, hcanonical⟩

/-- It is not the case that the lists of fields lack what is ignored as well. -/
theorem not_forall_canonicalAttributes_ignores :
    ¬ ∀ (schema : Schema) (root : Node) (b : Builder) (attributes : List Attribute),
      schema.node = .ok root → b.attributes root = .ok attributes →
        CanonicalAttributes b b.ignores [] root attributes := by
  intro h
  obtain ⟨root, hroot, hbuilt⟩ := exists_ok_of_toOption_map_eq_some
    (show pageSchema.node.toOption.map (fun root =>
        (Builder.attributes { flavor := .resource, ignores := ["rows.note"] } root).toOption.map
          lastFields?) =
      some (some (some ("rows", ["note", "value"])))
      by decide +kernel)
  obtain ⟨attributes, hattributes, hlast⟩ := exists_ok_of_toOption_map_eq_some hbuilt
  obtain ⟨-, each⟩ := h pageSchema root _ attributes hroot hattributes
  unfold lastFields? at hlast
  split at hlast
  · rename_i name traits kind kind' fields ha
    obtain ⟨hname, hfields⟩ := Prod.mk.inj (Option.some.inj hlast)
    -- down from the attribute to the list of fields
    obtain ⟨-, built⟩ := each _ (List.mem_of_getLast? ha)
    obtain - | ⟨-, -, member⟩ := built
    obtain - | ⟨-, member⟩ := member
    obtain - | - | ⟨-, names, -⟩ := member
    have hnote := ((names.mem_iff "note").mp (by rw [hfields]; simp)).2
    rw [hname] at hnote
    exact hnote (by decide)
  · cases hlast

end Builder

end ProviderSchema
