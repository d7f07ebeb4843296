import ProviderSchema.Proofs.Attribute.NameLists
import ProviderSchema.Proofs.Node.Arranged
import ProviderSchema.Proofs.Node.Form

/-!
# The names of what is built

Every list of names in an attribute that is built of a node comes from the
properties of some node, and those of an arranged node are the names of
arranged properties, less those that are ignored.  So whatever holds of the
names of arranged properties, and of any part of them (`HoldsOfArranged`),
holds of every list of names in what is built: that no name occurs twice, for
example (`holdsOfArranged_nodup`).

The lemmas at the beginning take a successful build apart.
-/

namespace ProviderSchema

open OpenApi

/-! ## Successful builds -/

namespace Node

theorem elementFields_cons_eq_ok {p : Property} {child : Except SchemaError Node}
    {rest : List (Property × Except SchemaError Node)} {fields : List (String × ElementType)}
    (h : elementFields ((p, child) :: rest) = .ok fields) :
    ∃ n t later, child = .ok n ∧ n.elementType = .ok t ∧ elementFields rest = .ok later ∧
      fields = (p.name, t) :: later := by
  cases child with
  | error e =>
    rw [elementFields] at h
    cases h
  | ok n =>
    rw [elementFields] at h
    cases ht : n.elementType with
    | error e =>
      rw [ht] at h
      cases h
    | ok t =>
      rw [ht] at h
      obtain ⟨later, hlater, rfl⟩ := map_eq_ok_iff.mp h
      exact ⟨n, t, later, rfl, ht, hlater, rfl⟩

/-- An object has a field for every property. -/
theorem map_fst_elementFields {properties : List (Property × Except SchemaError Node)}
    {fields : List (String × ElementType)} (h : elementFields properties = .ok fields) :
    fields.map (·.1) = properties.map (·.1.name) := by
  induction properties generalizing fields with
  | nil =>
    rw [elementFields] at h
    cases h
    rfl
  | cons entry rest ih =>
    obtain ⟨p, child⟩ := entry
    obtain ⟨n, t, later, -, -, hlater, rfl⟩ := elementFields_cons_eq_ok h
    rw [List.map_cons, List.map_cons, ih hlater]

theorem collectionType_eq_ok {kind : CollectionKind} {member : Except SchemaError Node}
    {t : ElementType} (h : collectionType kind member = .ok t) :
    ∃ m element, member = .ok m ∧ m.elementType = .ok element ∧ t = .collection kind element := by
  cases member with
  | error e => cases h
  | ok m =>
    obtain ⟨element, helement, rfl⟩ := map_eq_ok_iff.mp h
    exact ⟨m, element, rfl, helement, rfl⟩

end Node

namespace Builder

variable {b : Builder} {owner : Facts} {path : String}

/-- Nothing is built of a property that is ignored. -/
theorem propertyAttributes_cons_of_mem {p : Property} (h : below path p.name ∈ b.ignores)
    (child : Except SchemaError Node) (rest : List (Property × Except SchemaError Node)) :
    b.propertyAttributes owner path ((p, child) :: rest) =
      b.propertyAttributes owner path rest := by
  cases child <;> rw [propertyAttributes, if_pos (by simpa using h)]

theorem propertyAttributes_cons_of_named {p : Property} (h : below path p.name ∉ b.ignores)
    {n : Node} {a : Attribute}
    (ha : b.named p.name (b.computabilityOf owner p) (below path p.name) n = .ok a)
    (rest : List (Property × Except SchemaError Node)) :
    b.propertyAttributes owner path ((p, .ok n) :: rest) =
      (b.propertyAttributes owner path rest).map (a :: ·) := by
  rw [propertyAttributes, if_neg (by simpa using h), ha]

/-- A property is ignored, or an attribute is built of its node. -/
theorem propertyAttributes_cons_eq_ok {p : Property} {child : Except SchemaError Node}
    {rest : List (Property × Except SchemaError Node)} {attributes : List Attribute}
    (h : b.propertyAttributes owner path ((p, child) :: rest) = .ok attributes) :
    (below path p.name ∈ b.ignores ∧ b.propertyAttributes owner path rest = .ok attributes) ∨
      (below path p.name ∉ b.ignores ∧ ∃ n a later, child = .ok n ∧
        b.named p.name (b.computabilityOf owner p) (below path p.name) n = .ok a ∧
          b.propertyAttributes owner path rest = .ok later ∧ attributes = a :: later) := by
  by_cases hignored : below path p.name ∈ b.ignores
  · rw [propertyAttributes_cons_of_mem hignored] at h
    exact .inl ⟨hignored, h⟩
  · right
    refine ⟨hignored, ?_⟩
    cases child with
    | error e => simp [propertyAttributes, hignored] at h
    | ok n =>
      cases hnamed : b.named p.name (b.computabilityOf owner p) (below path p.name) n with
      | error e =>
        rw [propertyAttributes, if_neg (by simpa using hignored), hnamed] at h
        cases h
      | ok a =>
        rw [propertyAttributes_cons_of_named hignored hnamed] at h
        obtain ⟨later, hlater, rfl⟩ := map_eq_ok_iff.mp h
        exact ⟨n, a, later, rfl, hnamed, hlater, rfl⟩

/-- What holds of the attribute of every property holds of all attributes. -/
theorem forall_mem_propertyAttributes {Q : Attribute → Prop}
    {properties : List (Property × Except SchemaError Node)}
    (h : ∀ p child, (p, .ok child) ∈ properties → ∀ a,
      b.named p.name (b.computabilityOf owner p) (below path p.name) child = .ok a → Q a)
    {attributes : List Attribute}
    (hattributes : b.propertyAttributes owner path properties = .ok attributes) :
    ∀ a ∈ attributes, Q a := by
  induction properties generalizing attributes with
  | nil =>
    rw [propertyAttributes] at hattributes
    cases hattributes
    simp
  | cons entry rest ih =>
    obtain ⟨p, child⟩ := entry
    have hrest := fun q m hmem => h q m (List.mem_cons_of_mem _ hmem)
    rcases propertyAttributes_cons_eq_ok hattributes with
      ⟨-, hlater⟩ | ⟨-, n, a, later, rfl, ha, hlater, rfl⟩
    · exact ih hrest hlater
    · rw [List.forall_mem_cons]
      exact ⟨h p n List.mem_cons_self a ha, ih hrest hlater⟩

/-- Of every property that is not ignored an attribute is made. -/
theorem exists_named_of_propertyAttributes_eq_ok
    {properties : List (Property × Except SchemaError Node)} {attributes : List Attribute}
    (h : b.propertyAttributes owner path properties = .ok attributes) {p : Property}
    {child : Except SchemaError Node} (hmem : (p, child) ∈ properties)
    (hkept : below path p.name ∉ b.ignores) :
    ∃ a, child.bind (b.named p.name (b.computabilityOf owner p) (below path p.name)) = .ok a := by
  induction properties generalizing attributes with
  | nil => cases hmem
  | cons entry rest ih =>
    obtain ⟨q, other⟩ := entry
    rcases propertyAttributes_cons_eq_ok h with
      ⟨hignored, hrest⟩ | ⟨-, m, a, later, rfl, ha, hrest, -⟩
    · rcases List.mem_cons.mp hmem with heq | hmem
      · cases heq
        exact absurd hignored hkept
      · exact ih hrest hmem
    · rcases List.mem_cons.mp hmem with heq | hmem
      · cases heq
        exact ⟨a, ha⟩
      · exact ih hrest hmem

/-- The properties that are not ignored are those that attributes are built of, in the
same order. -/
theorem map_name_propertyAttributes_eq_filter
    {properties : List (Property × Except SchemaError Node)} {attributes : List Attribute}
    (h : b.propertyAttributes owner path properties = .ok attributes) :
    attributes.map Attribute.name =
      (properties.map (·.1.name)).filter fun name => below path name ∉ b.ignores := by
  induction properties generalizing attributes with
  | nil =>
    rw [propertyAttributes] at h
    cases h
    rfl
  | cons entry rest ih =>
    obtain ⟨p, child⟩ := entry
    rcases propertyAttributes_cons_eq_ok h with
      ⟨hignored, hrest⟩ | ⟨hkept, n, a, later, -, ha, hrest, rfl⟩
    · rw [ih hrest, List.map_cons, List.filter_cons_of_neg (by simpa using hignored)]
    · rw [List.map_cons, ih hrest, named_name ha, List.map_cons,
        List.filter_cons_of_pos (by simpa using hkept)]

theorem map_name_propertyAttributes {properties : List (Property × Except SchemaError Node)}
    {attributes : List Attribute}
    (h : b.propertyAttributes owner path properties = .ok attributes) :
    (attributes.map Attribute.name).Sublist (properties.map (·.1.name)) := by
  rw [map_name_propertyAttributes_eq_filter h]
  exact List.filter_sublist

end Builder

/-! ## Names in what is built -/

/-- `P` holds of the names of arranged properties, and of parts of what it
holds of. -/
structure HoldsOfArranged (P : List String → Prop) : Prop where
  arrange : ∀ {α : Type} (table : List (String × α)), P ((arrange table).map (·.1.name))
  sublist : ∀ {l l' : List String}, l.Sublist l' → P l' → P l

theorem holdsOfArranged_nodup : HoldsOfArranged List.Nodup :=
  ⟨nodup_name_arrange, List.Sublist.nodup⟩

theorem HoldsOfArranged.nil {P : List String → Prop} (hP : HoldsOfArranged P) : P [] :=
  hP.sublist (List.nil_sublist _) (hP.arrange ([] : List (String × Unit)))

variable {P : List String → Prop} {b : Builder}

/-- Whatever is built of a node has names in order. -/
structure BuildsNames (P : List String → Prop) (b : Builder) (n : Node) : Prop where
  elementType : ∀ t, n.elementType = .ok t → t.FieldNames P
  named : ∀ name c path a, b.named name c path n = .ok a → a.NamesBelow P
  properties : ∀ owner path attributes,
    b.propertyAttributes owner path n.properties = .ok attributes → NamesThroughout P attributes

theorem forall_fieldNames_elementFields
    {properties : List (Property × Except SchemaError Node)}
    (h : ∀ p child, (p, .ok child) ∈ properties → BuildsNames P b child)
    {fields : List (String × ElementType)} (hfields : Node.elementFields properties = .ok fields) :
    ∀ field ∈ fields, field.2.FieldNames P := by
  induction properties generalizing fields with
  | nil =>
    rw [Node.elementFields] at hfields
    cases hfields
    simp
  | cons entry rest ih =>
    obtain ⟨p, child⟩ := entry
    obtain ⟨n, t, later, rfl, ht, hlater, rfl⟩ := Node.elementFields_cons_eq_ok hfields
    rw [List.forall_mem_cons]
    refine ⟨(h p n List.mem_cons_self).elementType t ht, ih ?_ hlater⟩
    exact fun q m hmem => h q m (List.mem_cons_of_mem _ hmem)

/-- A collection has names in order if its members have. -/
theorem namesBelow_collected {name path : String} {traits : Traits} {kind : CollectionKind}
    {member : Except SchemaError Node} (h : ∀ m, member = .ok m → BuildsNames P b m)
    {a : Attribute} (ha : b.collected name traits kind path member = .ok a) : a.NamesBelow P := by
  obtain ⟨m, hm, ⟨-, attributes, hattributes, rfl⟩ | ⟨-, element, helement, rfl⟩⟩ :=
    Builder.collected_eq_ok_iff.mp ha
  · have hbuilt := (h m hm).properties _ _ _ hattributes
    exact .nested name traits kind hbuilt.names hbuilt.each
  · exact .collection name traits kind ((h m hm).elementType element helement)

/-- All that is built of an arranged node has names in order. -/
theorem buildsNames_of_arranged (hP : HoldsOfArranged P) (b : Builder) {n : Node}
    (h : n.Arranged) : BuildsNames P b n := by
  induction h with
  | @mk n harranged _ _ _ ihproperties ihitems ihvalue =>
    have hnames : P (n.properties.map (·.1.name)) := by
      rw [harranged]
      exact hP.arrange _
    have hproperties : ∀ owner path attributes,
        b.propertyAttributes owner path n.properties = .ok attributes →
          NamesThroughout P attributes := fun owner path attributes hbuilt =>
      ⟨hP.sublist (Builder.map_name_propertyAttributes hbuilt) hnames,
        Builder.forall_mem_propertyAttributes
          (fun p child hmem => (ihproperties p child hmem).named _ _ _) hbuilt⟩
    refine ⟨?_, ?_, hproperties⟩
    · intro t ht
      rw [Node.elementType_eq] at ht
      split at ht
      · cases ht
        exact .scalar _
      · obtain ⟨m, element, hm, helement, rfl⟩ := Node.collectionType_eq_ok ht
        exact .collection _ ((ihitems m hm).elementType element helement)
      · obtain ⟨m, element, hm, helement, rfl⟩ := Node.collectionType_eq_ok ht
        exact .collection _ ((ihvalue m hm).elementType element helement)
      · obtain ⟨fields, hfields, rfl⟩ := map_eq_ok_iff.mp ht
        refine .object ?_ (forall_fieldNames_elementFields ihproperties hfields)
        rw [Node.map_fst_elementFields hfields]
        exact hnames
    · intro name c path a ha
      rw [Builder.named_eq] at ha
      split at ha
      · cases ha
        exact .scalar _ _ _
      · exact namesBelow_collected ihitems ha
      · exact namesBelow_collected ihvalue ha
      · obtain ⟨attributes, hattributes, rfl⟩ := map_eq_ok_iff.mp ha
        have hbuilt := hproperties _ _ _ hattributes
        exact .single name _ hbuilt.names hbuilt.each

/-- The attributes of an arranged node have names in order. -/
theorem namesThroughout_attributes (hP : HoldsOfArranged P) {n : Node} (h : n.Arranged)
    {attributes : List Attribute} (hattributes : b.attributes n = .ok attributes) :
    NamesThroughout P attributes :=
  (buildsNames_of_arranged hP b h).properties _ _ _ (Builder.attributes_eq_ok_iff.mp hattributes).2

/-- So has what is below the attribute of an arranged node. -/
theorem namesBelow_attributeNamed (hP : HoldsOfArranged P) {n : Node} (h : n.Arranged)
    {name : String} {c : Computability} {a : Attribute}
    (ha : b.attributeNamed name n c = .ok a) : a.NamesBelow P :=
  (buildsNames_of_arranged hP b h).named _ _ _ _ (mapError_eq_ok_iff.mp ha)

theorem name_attributeNamed {n : Node} {name : String} {c : Computability} {a : Attribute}
    (ha : b.attributeNamed name n c = .ok a) : a.name = name :=
  Builder.named_name (mapError_eq_ok_iff.mp ha)

end ProviderSchema
