import ProviderSchema.Proofs.Attribute.MergeOne

/-!
# One change everywhere in a tree

`Attribute.mapEach f g` changes the traits of an attribute by `f` and its
shape, if it is a scalar, by `g`, and does the same to every attribute below
it.  Trees that such a change makes equal differ nowhere but in what it
removes: this is how trees are compared that are the same but for who supplies
their values.

The lemmas say, part by part, what the change does to an attribute.  Names,
shapes of members and the nesting of attributes are always kept.
-/

namespace ProviderSchema.Attribute

mutual

/-- An attribute with the traits and scalars changed, in it and below it. -/
def mapEach (f : Traits → Traits) (g : ScalarShape → ScalarShape) : Attribute → Attribute
  | .scalar name traits shape => .scalar name (f traits) (g shape)
  | .collection name traits kind element => .collection name (f traits) kind element
  | .nested name traits kind attributes => .nested name (f traits) kind (mapEachOf f g attributes)
  | .single name traits attributes => .single name (f traits) (mapEachOf f g attributes)

/-- Attributes with the traits and scalars changed, in them and below them. -/
def mapEachOf (f : Traits → Traits) (g : ScalarShape → ScalarShape) :
    List Attribute → List Attribute
  | [] => []
  | a :: rest => a.mapEach f g :: mapEachOf f g rest

end

variable (f : Traits → Traits) (g : ScalarShape → ScalarShape)

theorem mapEachOf_eq_map (attributes : List Attribute) :
    mapEachOf f g attributes = attributes.map (mapEach f g) := by
  induction attributes with
  | nil => rfl
  | cons a rest ih => rw [mapEachOf, ih, List.map_cons]

@[simp] theorem name_mapEach (a : Attribute) : (a.mapEach f g).name = a.name := by
  cases a <;> rw [mapEach] <;> rfl

theorem traits_mapEach (a : Attribute) : (a.mapEach f g).traits = f a.traits := by
  cases a <;> rw [mapEach] <;> rfl

theorem element?_mapEach (a : Attribute) : (a.mapEach f g).element? = a.element? := by
  cases a <;> rw [mapEach] <;> rfl

theorem children?_mapEach (a : Attribute) :
    (a.mapEach f g).children? = a.children?.map (List.map (mapEach f g)) := by
  cases a <;> rw [mapEach] <;> simp [children?, mapEachOf_eq_map]

/-- The variant is kept by what keeps the kinds of scalars. -/
theorem variant_mapEach {g : ScalarShape → ScalarShape} (hg : ∀ shape, (g shape).kind = shape.kind)
    (a : Attribute) : (a.mapEach f g).variant = a.variant := by
  cases a <;> rw [mapEach] <;> simp [variant, hg]

end ProviderSchema.Attribute
