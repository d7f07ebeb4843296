import ProviderSchema.OpenApi.Schema

/-!
# The schemas that a schema holds

`Children.Holds` says that a schema stands somewhere among the children of
another one: `Schema.inductionOnHeld` is the induction that passes from all of
them on to the schema that holds them.  Properties count even if there is an
earlier one of the same name.
-/

namespace ProviderSchema.OpenApi

/-- A schema is among the children. -/
inductive Children.Holds (c : Children Schema) (s : Schema) : Prop where
  | property (name : String) (h : (name, s) ∈ c.properties)
  | additional (h : c.additional = some (.schema s))
  | items (h : c.items = some (.schema s))
  | tuple (members : List Schema) (h : c.items = some (.tuple members)) (mem : s ∈ members)
  | composed (h : s ∈ c.allOf ++ c.anyOf ++ c.oneOf)

/-- A child is smaller than the children. -/
theorem Children.Holds.sizeOf_lt {c : Children Schema} {s : Schema} (h : c.Holds s) :
    sizeOf s < sizeOf c := by
  obtain ⟨properties, additional, items, allOf, oneOf, anyOf⟩ := c
  rw [Children.mk.sizeOf_spec]
  cases h with
  | property name h =>
    have hlt := List.sizeOf_lt_of_mem h
    rw [Prod.mk.sizeOf_spec] at hlt
    dsimp only at hlt
    omega
  | additional h =>
    dsimp only at h
    subst h
    simp
    omega
  | items h =>
    dsimp only at h
    subst h
    simp
    omega
  | tuple members h hmem =>
    have hlt := List.sizeOf_lt_of_mem hmem
    dsimp only at h
    subst h
    simp
    omega
  | composed h =>
    rw [List.mem_append, List.mem_append] at h
    rcases h with (h | h) | h
    · have hlt : sizeOf s < sizeOf allOf := List.sizeOf_lt_of_mem h
      omega
    · have hlt : sizeOf s < sizeOf anyOf := List.sizeOf_lt_of_mem h
      omega
    · have hlt : sizeOf s < sizeOf oneOf := List.sizeOf_lt_of_mem h
      omega

/-- What passes from the schemas that a schema holds on to the schema holds of
all schemas. -/
theorem Schema.inductionOnHeld {motive : Schema → Prop}
    (reference : ∀ target, motive (.reference target))
    (inline : ∀ (keywords : Keywords) (c : Children Schema),
      (∀ s, c.Holds s → motive s) → motive (.inline keywords c)) :
    ∀ s, motive s
  | .reference target => reference target
  | .inline keywords c =>
    inline keywords c fun s h =>
      have := h.sizeOf_lt
      inductionOnHeld reference inline s
termination_by s => sizeOf s

end ProviderSchema.OpenApi
