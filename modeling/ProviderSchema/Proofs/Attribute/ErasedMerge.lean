import ProviderSchema.Proofs.Attribute.Erasure
import ProviderSchema.Proofs.Attribute.Everywhere

/-!
# The shape of merged attributes

Attributes are merged by one function and shapes of values by another one.
They agree (`object_erasedFields_mergeAttributes`): the shape of a merge is the
merge of the shapes.

The two see different things where they disagree about a member of a
collection.  For attributes a list of objects, whose members are nested
attributes, and a list of texts are of different variants; for shapes they are
both lists, of members that differ.  Either way the first one is kept, unless
a list of objects is written as a list of texts is: its shape would be merged
with that of nested attributes.  So objects have to be nested attributes
wherever they are members (`ObjectsNested`).  Names may repeat: both functions
fill the first of a name.
-/

namespace ProviderSchema

namespace ElementType

/-- Whether a shape is that of an object. -/
def isObject : ElementType → Bool
  | .object _ => true
  | _ => false

theorem isObject_merge (target source : ElementType) :
    (target.merge source).isObject = target.isObject := by
  cases source with
  | scalar kind => rw [merge]
  | collection kind source =>
    cases target with
    | collection kind' element =>
      rw [merge]
      split <;> rfl
    | _ => rfl
  | object sources => cases target <;> rfl

/-- An object and what is none are not merged. -/
theorem merge_of_isObject_ne {target source : ElementType}
    (h : target.isObject ≠ source.isObject) : target.merge source = target := by
  cases source with
  | scalar kind => rw [merge]
  | collection kind source =>
    cases target with
    | object fields => rfl
    | _ => exact absurd rfl h
  | object sources =>
    cases target with
    | object fields => exact absurd rfl h
    | _ => rfl

theorem merge_collection_collection (kind kind' : CollectionKind) (target source : ElementType) :
    (collection kind' target).merge (collection kind source) =
      collection kind' (if kind' = kind then target.merge source else target) := by
  rw [merge]
  split <;> rfl

theorem merge_object_object (fields sources : List (String × ElementType)) :
    (object fields).merge (object sources) = object (mergeFields fields sources) := by
  rw [merge]

end ElementType

namespace Attribute

/-- The members of a collection of values are no objects: objects are described
by nested attributes. -/
def ObjectsNested (a : Attribute) : Prop := ∀ t, a.element? = some t → t.isObject = false

instance : DecidablePred ObjectsNested := fun a =>
  match h : a.element? with
  | none => .isTrue fun t ht => by rw [h] at ht; cases ht
  | some t => decidable_of_iff (t.isObject = false) (by simp [ObjectsNested, h])

theorem objectsNested_merge {a s : Attribute} (h : a.variant = s.variant) (ha : a.ObjectsNested)
    (hs : s.ObjectsNested) : (a.merge s).ObjectsNested := by
  unfold ObjectsNested
  rw [element?_merge h]
  refine forall_merge ha hs ?_
  intro t t' _ _ ht _
  rw [ElementType.isObject_merge, ht]

theorem erasedFields_eq_map (attributes : List Attribute) :
    erasedFields attributes = attributes.map fun a => (a.name, a.erased) := by
  induction attributes with
  | nil => rfl
  | cons a rest ih => rw [erasedFields, ih, List.map_cons]

/-- The fields of merged attributes are those of both lists merged, if the
shapes of merged attributes are the merged shapes. -/
theorem erasedFields_mergeAll {target source : List Attribute}
    (hmerge : ∀ a : Attribute, ∀ s ∈ source, a.Each ObjectsNested → s.Each ObjectsNested →
      (a.merge s).erased = a.erased.merge s.erased)
    (htarget : ∀ a ∈ target, a.Each ObjectsNested) (hsource : ∀ s ∈ source, s.Each ObjectsNested) :
    erasedFields (mergeAll target source) =
      ElementType.mergeFields (erasedFields target) (erasedFields source) := by
  rw [mergeAll_eq_mergeByKey, ElementType.mergeFields_eq_mergeByKey]
  simp only [erasedFields_eq_map]
  refine map_mergeByKey (fun _ => rfl) ?_ ?_ htarget hsource
  · intro a s _ ha hs
    exact ha.merge (fun _ _ => objectsNested_merge) hs
  · intro a s hs _ ha hs'
    rw [name_merge, hmerge a s hs ha hs']

/-- The shape of a merge is the merge of the shapes. -/
theorem erased_merge {a s : Attribute} (ha : a.Each ObjectsNested) (hs : s.Each ObjectsNested) :
    (a.merge s).erased = a.erased.merge s.erased := by
  induction s using inductionOnChildren generalizing a with
  | step s ih =>
    have hfields {l l' : List Attribute} (hl : a.children? = some l) (hl' : s.children? = some l') :
        erasedFields (mergeAll l l') =
          ElementType.mergeFields (erasedFields l) (erasedFields l') :=
      erasedFields_mergeAll (fun a s hs ha hs' => ih l' hl' s hs ha hs') (ha.children hl)
        (hs.children hl')
    cases s with
    | scalar name traits shape =>
      rw [erased, ElementType.merge]
      cases a with
      | scalar name' traits' shape' =>
        rw [merge]
        split <;> rfl
      | _ => rfl
    | collection name traits kind element =>
      cases a with
      | scalar => rfl
      | collection name' traits' kind' element' =>
        rw [merge, erased, erased, ElementType.merge_collection_collection]
        split <;> rfl
      | nested name' traits' kind' attributes =>
        -- The members are kept, as an object is not merged with what is none.
        have hkept : (ElementType.object (erasedFields attributes)).merge element =
            .object (erasedFields attributes) :=
          ElementType.merge_of_isObject_ne (by rw [hs.own element rfl]; exact Bool.noConfusion)
        rw [merge_of_variant_ne Variant.noConfusion, erased, erased,
          ElementType.merge_collection_collection, hkept, ite_self]
      | single => rfl
    | nested name traits kind attributes =>
      cases a with
      | scalar => rfl
      | collection name' traits' kind' element =>
        have hkept : element.merge (.object (erasedFields attributes)) = element :=
          ElementType.merge_of_isObject_ne (by rw [ha.own element rfl]; exact Bool.noConfusion)
        rw [merge_of_variant_ne Variant.noConfusion, erased, erased,
          ElementType.merge_collection_collection, hkept, ite_self]
      | nested name' traits' kind' attributes' =>
        rw [merge, erased, erased, ElementType.merge_collection_collection,
          ElementType.merge_object_object, ← hfields rfl rfl]
        split <;> rfl
      | single => rfl
    | single name traits attributes =>
      cases a with
      | scalar => rfl
      | collection => rfl
      | nested => rfl
      | single name' traits' attributes' =>
        rw [merge, erased, erased, erased, ElementType.merge_object_object, hfields rfl rfl]

/-- Merging attributes and erasing what is not shape leads to the same as
erasing it and merging the shapes. -/
theorem object_erasedFields_mergeAttributes {target source : List Attribute}
    (htarget : ∀ a ∈ target, a.Each ObjectsNested) (hsource : ∀ s ∈ source, s.Each ObjectsNested) :
    ElementType.object (erasedFields (mergeAttributes target [source])) =
      (ElementType.object (erasedFields target)).merge (.object (erasedFields source)) := by
  rw [ElementType.merge_object_object]
  congr 1
  exact erasedFields_mergeAll (fun _ _ _ => erased_merge) htarget hsource

/-- An order, as one source has it: its lines are objects with a number. -/
def plainOrder : List Attribute :=
  [.nested "lines" { computability := .required } .list
      [.scalar "number" { computability := .required } (.int64 none)],
    .collection "tags" { computability := .optional } .set (.scalar .string),
    .single "buyer" { computability := .optional }
      [.collection "phones" { computability := .optional } .list
        (.collection .list (.object [("digits", .scalar .string)]))]]

/-- The same order, as another source has it: its tags are objects, and lines
and phones have more to them. -/
def detailedOrder : List Attribute :=
  [.nested "tags" { computability := .computed } .set
      [.scalar "color" { computability := .computed } (.string none)],
    .single "buyer" { computability := .computed }
      [.collection "phones" { computability := .computed } .list
          (.collection .list (.object [("area", .scalar .int64)])),
        .scalar "name" { computability := .computed } (.string none)],
    .nested "lines" { computability := .computed } .list
      [.scalar "number" { computability := .computed } (.string none),
        .scalar "price" { computability := .computed } (.number none)]]

/-- Lines, buyers and phones are merged in both ways, and tags in neither. -/
theorem object_erasedFields_mergeAttributes_orders :
    (∀ a ∈ plainOrder, a.Each ObjectsNested) ∧ (∀ a ∈ detailedOrder, a.Each ObjectsNested) ∧
      ElementType.object (erasedFields (mergeAttributes plainOrder [detailedOrder])) =
        (ElementType.object (erasedFields plainOrder)).merge
          (.object (erasedFields detailedOrder)) ∧
      erasedFields (mergeAttributes plainOrder [detailedOrder]) =
        [("lines", .collection .list (.object [("number", .scalar .int64),
            ("price", .scalar .number)])),
          ("tags", .collection .set (.scalar .string)),
          ("buyer", .object [("phones", .collection .list (.collection .list
            (.object [("digits", .scalar .string), ("area", .scalar .int64)]))),
            ("name", .scalar .string)])] :=
  have hplain : ∀ a ∈ plainOrder, a.Each ObjectsNested := by decide
  have hdetailed : ∀ a ∈ detailedOrder, a.Each ObjectsNested := by decide
  ⟨hplain, hdetailed, object_erasedFields_mergeAttributes hplain hdetailed, by rfl⟩

end Attribute

end ProviderSchema
