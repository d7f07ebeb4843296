import ProviderSchema.Proofs.OpenApi.Step

/-!
# The references that are replaced

Inlining replaces all references of a schema but those among the members of a
tuple, which stay as they are.  `Children.outsideTuples` are the children whose
references are replaced, and `Schema.references` are these references, in the
order in which they are met.

Nothing but these references counts for `Schema.substitute`: children become
the same if they do outside tuples (`substituteChildren_congr_outsideTuples`),
and a schema whose references are left stays as it is (`substitute_eq_self`).
-/

namespace ProviderSchema.OpenApi

/-! ## Children -/

/-- The children, the members of a tuple excepted. -/
def Children.outsideTuples (c : Children Schema) : List Schema :=
  c.properties.map (·.2) ++ (c.child? .items).toList ++ c.allOf ++ c.oneOf ++ c.anyOf
    ++ (c.child? .additional).toList

theorem Children.holds_of_mem_outsideTuples {c : Children Schema} {s : Schema}
    (h : s ∈ c.outsideTuples) : c.Holds s := by
  unfold outsideTuples at h
  simp only [List.mem_append, List.mem_map, Option.mem_toList] at h
  rcases h with ((((⟨entry, hentry, rfl⟩ | h) | h) | h) | h) | h
  · exact .property entry.1 hentry
  · exact holds_of_child?_eq_some h
  · exact .composed (by simp [h])
  · exact .composed (by simp [h])
  · exact .composed (by simp [h])
  · exact holds_of_child?_eq_some h

/-- The children with a function applied to those outside tuples. -/
def Children.mapOutsideTuples (f : Schema → Schema) (c : Children Schema) : Children Schema where
  properties := c.properties.map fun (name, s) => (name, f s)
  additional := c.additional.map fun
    | .allowed value => .allowed value
    | .schema s => .schema (f s)
  items := c.items.map fun
    | .allowed value => .allowed value
    | .tuple members => .tuple members
    | .schema s => .schema (f s)
  allOf := c.allOf.map f
  oneOf := c.oneOf.map f
  anyOf := c.anyOf.map f

theorem Children.mapOutsideTuples_congr {f g : Schema → Schema} {c : Children Schema}
    (h : ∀ s ∈ c.outsideTuples, f s = g s) : c.mapOutsideTuples f = c.mapOutsideTuples g := by
  obtain ⟨properties, additional, items, allOf, oneOf, anyOf⟩ := c
  unfold outsideTuples at h
  simp only [List.forall_mem_append, List.forall_mem_map, Option.mem_toList] at h
  obtain ⟨⟨⟨⟨⟨hproperties, hitems⟩, hallOf⟩, honeOf⟩, hanyOf⟩, hadditional⟩ := h
  unfold mapOutsideTuples
  congr 1
  · refine List.map_congr_left fun entry hentry => ?_
    obtain ⟨name, s⟩ := entry
    exact Prod.ext rfl (hproperties (name, s) hentry)
  · rcases additional with _ | ⟨_ | s⟩
    · rfl
    · rfl
    · exact congrArg (fun t => some (Additional.schema t)) (hadditional s rfl)
  · rcases items with _ | ⟨_ | _ | s⟩
    · rfl
    · rfl
    · rfl
    · exact congrArg (fun t => some (Items.schema t)) (hitems s rfl)
  · exact List.map_congr_left hallOf
  · exact List.map_congr_left honeOf
  · exact List.map_congr_left hanyOf

theorem Children.mapOutsideTuples_id (c : Children Schema) : c.mapOutsideTuples id = c := by
  obtain ⟨properties, additional, items, allOf, oneOf, anyOf⟩ := c
  rcases additional with _ | ⟨_ | _⟩ <;> rcases items with _ | ⟨_ | _ | _⟩ <;>
    simp [mapOutsideTuples]

namespace Schema

theorem substituteChildren_eq_mapOutsideTuples (f : String → Schema) (c : Children Schema) :
    substituteChildren f c = c.mapOutsideTuples (substitute f) := rfl

/-- Children become the same if they do outside tuples. -/
theorem substituteChildren_congr_outsideTuples {f g : String → Schema} {c : Children Schema}
    (h : ∀ s ∈ c.outsideTuples, s.substitute f = s.substitute g) :
    substituteChildren f c = substituteChildren g c :=
  Children.mapOutsideTuples_congr h

theorem outsideTuples_substituteChildren (f : String → Schema) (c : Children Schema) :
    (substituteChildren f c).outsideTuples = c.outsideTuples.map (substitute f) := by
  have hitems : (substituteChildren f c).child? .items = (c.child? .items).map (substitute f) := by
    rw [child?_substituteChildren]
    rfl
  have hadditional : (substituteChildren f c).child? .additional =
      (c.child? .additional).map (substitute f) := by
    rw [child?_substituteChildren]
    rfl
  unfold Children.outsideTuples
  rw [hitems, hadditional]
  simp [substituteChildren, Option.toList_map, Function.comp_def]

/-! ## References -/

/-- The references of a schema that inlining replaces. -/
def references (s : Schema) : List String := s.gather fun target => [target]

theorem gatherList_eq_flatMap {α : Type} (f : String → List α) (schemas : List Schema) :
    gatherList f schemas = schemas.flatMap (gather f) := by
  induction schemas with
  | nil => rfl
  | cons s rest ih => rw [gatherList, ih, List.flatMap_cons]

theorem gatherTable_eq_flatMap {α : Type} (f : String → List α) (table : List (String × Schema)) :
    gatherTable f table = (table.map (·.2)).flatMap (gather f) := by
  induction table with
  | nil => rfl
  | cons entry rest ih => rw [gatherTable, ih, List.map_cons, List.flatMap_cons]

@[simp] theorem references_reference (target : String) :
    (Schema.reference target).references = [target] := by
  rw [references, gather]

theorem references_inline (keywords : Keywords) (c : Children Schema) :
    (Schema.inline keywords c).references = c.outsideTuples.flatMap references := by
  obtain ⟨properties, additional, items, allOf, oneOf, anyOf⟩ := c
  have hreferences : (references : Schema → List String) = gather fun target => [target] := rfl
  rcases additional with _ | ⟨_ | _⟩ <;> rcases items with _ | ⟨_ | _ | _⟩ <;>
    simp [hreferences, gather, gatherList_eq_flatMap, gatherTable_eq_flatMap,
      Children.outsideTuples, Children.child?]

/-- Whose copy a schema is says nothing about the references in it. -/
@[simp] theorem references_copiedFrom (name : String) (s : Schema) :
    (s.copiedFrom name).references = s.references := by
  cases s with
  | reference target => rfl
  | inline keywords c => rw [copiedFrom, references_inline, references_inline]

/-- A schema stays as it is if all its references are left. -/
theorem substitute_eq_self {f : String → Schema} {s : Schema}
    (h : ∀ target ∈ s.references, f target = .reference target) : s.substitute f = s := by
  induction s using inductionOnHeld with
  | reference target => exact h target (by simp)
  | inline keywords c ih =>
    rw [references_inline] at h
    have hchildren : ∀ s ∈ c.outsideTuples, s.substitute f = id s := by
      intro s hs
      refine ih s (Children.holds_of_mem_outsideTuples hs) ?_
      exact fun target htarget => h target (List.mem_flatMap.mpr ⟨s, hs, htarget⟩)
    rw [substitute_inline, substituteChildren_eq_mapOutsideTuples,
      Children.mapOutsideTuples_congr hchildren, Children.mapOutsideTuples_id]

end Schema

end ProviderSchema.OpenApi
