import ProviderSchema.Attribute.Merge

/-!
# The shape of attributes

`Attribute.erased` is the shape of the value of an attribute: what is left
when everything that is said about the value is erased.  Nested attributes
become the fields of an object, under the same names and in the same order.
-/

namespace ProviderSchema.Attribute

mutual

/-- The shape of the value of an attribute. -/
def erased : Attribute → ElementType
  | .scalar _ _ shape => .scalar shape.kind
  | .collection _ _ kind element => .collection kind element
  | .nested _ _ kind attributes => .collection kind (.object (erasedFields attributes))
  | .single _ _ attributes => .object (erasedFields attributes)

/-- The fields of an object whose values are those of the attributes. -/
def erasedFields : List Attribute → List (String × ElementType)
  | [] => []
  | a :: rest => (a.name, erased a) :: erasedFields rest

end

end ProviderSchema.Attribute
