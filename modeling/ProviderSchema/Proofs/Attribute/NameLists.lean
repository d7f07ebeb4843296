import ProviderSchema.Proofs.Attribute.MergeOne

/-!
# The lists of names in a tree

Attributes come in lists, one below the other, and every object in the shape
of a value has a list of fields.  `NamesThroughout P` says that the names of
each of these lists satisfy `P`: of a list of attributes and of all lists
below it.  `Attribute.NamesBelow P` says so of what is below one attribute,
and `ElementType.FieldNames P` of the objects in one shape.

`UniqueNames` is the case that no name occurs twice.  What does not depend on
`P` is proved for all `P`: when merges keep all lists of names in order
(`KeptByMerges`), and that it can be decided whether they are.
-/

namespace ProviderSchema

/-- The field names of every object in the shape satisfy `P`. -/
inductive ElementType.FieldNames (P : List String → Prop) : ElementType → Prop where
  | scalar (kind : ScalarKind) : FieldNames P (.scalar kind)
  | collection (kind : CollectionKind) {element : ElementType} (below : element.FieldNames P) :
      FieldNames P (.collection kind element)
  | object {fields : List (String × ElementType)} (names : P (fields.map (·.1)))
      (each : ∀ field ∈ fields, field.2.FieldNames P) : FieldNames P (.object fields)

/-- The names of every list below the attribute satisfy `P`. -/
inductive Attribute.NamesBelow (P : List String → Prop) : Attribute → Prop where
  | scalar (name : String) (traits : Traits) (shape : ScalarShape) :
      NamesBelow P (.scalar name traits shape)
  | collection (name : String) (traits : Traits) (kind : CollectionKind) {element : ElementType}
      (below : element.FieldNames P) : NamesBelow P (.collection name traits kind element)
  | nested (name : String) (traits : Traits) (kind : CollectionKind) {attributes : List Attribute}
      (names : P (attributes.map Attribute.name)) (each : ∀ a ∈ attributes, a.NamesBelow P) :
      NamesBelow P (.nested name traits kind attributes)
  | single (name : String) (traits : Traits) {attributes : List Attribute}
      (names : P (attributes.map Attribute.name)) (each : ∀ a ∈ attributes, a.NamesBelow P) :
      NamesBelow P (.single name traits attributes)

/-- The names of the list, and of every list below it, satisfy `P`. -/
structure NamesThroughout (P : List String → Prop) (attributes : List Attribute) : Prop where
  /-- The names of the list itself. -/
  names : P (attributes.map Attribute.name)
  /-- What is below each attribute. -/
  each : ∀ a ∈ attributes, a.NamesBelow P

/-- No name occurs twice in the list, nor in one list or object below it. -/
abbrev UniqueNames : List Attribute → Prop := NamesThroughout List.Nodup

variable {P : List String → Prop}

/-! ## What is below an attribute -/

/-- Below an attribute there are the shape of its members and its nested
attributes. -/
theorem Attribute.namesBelow_iff {a : Attribute} :
    a.NamesBelow P ↔
      (∀ t, a.element? = some t → t.FieldNames P) ∧
        ∀ l, a.children? = some l → NamesThroughout P l := by
  constructor
  · intro h
    constructor
    · rintro t ht
      cases h <;> cases ht
      assumption
    · rintro l hl
      cases h <;> cases hl <;> exact ⟨‹_›, ‹_›⟩
  · rintro ⟨helement, hchildren⟩
    cases a with
    | scalar name traits shape => exact .scalar name traits shape
    | collection name traits kind element =>
      exact .collection name traits kind (helement element rfl)
    | nested name traits kind attributes =>
      have hattributes := hchildren attributes rfl
      exact .nested name traits kind hattributes.names hattributes.each
    | single name traits attributes =>
      have hattributes := hchildren attributes rfl
      exact .single name traits hattributes.names hattributes.each

theorem Attribute.sizeOf_lt_of_children?_eq_some {a : Attribute} {l : List Attribute}
    (h : a.children? = some l) : sizeOf l < sizeOf a := by
  cases a with
  | scalar => cases h
  | collection => cases h
  | nested name traits kind attributes =>
    cases h
    rw [Attribute.nested.sizeOf_spec]
    omega
  | single name traits attributes =>
    cases h
    rw [Attribute.single.sizeOf_spec]
    omega

/-- What passes from the nested attributes on to the attribute holds of all
attributes. -/
theorem Attribute.inductionOnChildren {motive : Attribute → Prop}
    (step : ∀ a : Attribute, (∀ l, a.children? = some l → ∀ c ∈ l, motive c) → motive a)
    (a : Attribute) : motive a :=
  step a fun l h c hc =>
    have : sizeOf c < sizeOf l := List.sizeOf_lt_of_mem hc
    have := sizeOf_lt_of_children?_eq_some h
    inductionOnChildren step c
termination_by sizeOf a

namespace Attribute.NamesBelow

/-- The traits say nothing about the names below. -/
theorem mapTraits {a : Attribute} (f : Traits → Traits) (h : a.NamesBelow P) :
    (a.mapTraits f).NamesBelow P := by
  rw [namesBelow_iff] at h ⊢
  cases a <;> exact h

/-- Other nested attributes may take the place of those there are. -/
theorem withChildren {a : Attribute} {attributes : List Attribute} (h : a.NamesBelow P)
    (hattributes : NamesThroughout P attributes) : (a.withChildren attributes).NamesBelow P := by
  rw [namesBelow_iff] at h ⊢
  cases a with
  | scalar name traits shape => exact h
  | collection name traits kind element => exact h
  | nested name traits kind children =>
    refine ⟨h.1, ?_⟩
    rintro l ⟨⟩
    exact hattributes
  | single name traits children =>
    refine ⟨h.1, ?_⟩
    rintro l ⟨⟩
    exact hattributes

end Attribute.NamesBelow

/-! ## Merges -/

/-- Whatever holds of two lists of names holds of the names after a merge. -/
def KeptByMerges (P : List String → Prop) : Prop :=
  ∀ target sources, P target → P sources → P (mergeByKey id (fun a _ => a) target sources)

theorem keptByMerges_nodup : KeptByMerges List.Nodup := by
  intro target sources htarget _
  rw [← List.map_id target] at htarget
  have h := @nodup_map_key_mergeByKey _ id (fun a _ => a) (fun _ _ => rfl) target sources htarget
  rwa [List.map_id] at h

theorem ElementType.FieldNames.merge (hP : KeptByMerges P) {target source : ElementType}
    (htarget : target.FieldNames P) (hsource : source.FieldNames P) :
    (target.merge source).FieldNames P := by
  induction hsource generalizing target with
  | scalar kind =>
    rw [ElementType.merge]
    exact htarget
  | collection kind below ih =>
    cases htarget with
    | scalar kind' => exact .scalar kind'
    | object names each => exact .object names each
    | collection kind' below' =>
      rw [ElementType.merge]
      split
      · exact .collection kind' (ih below')
      · exact .collection kind' below'
  | object names' each' ih =>
    cases htarget with
    | scalar kind => exact .scalar kind
    | collection kind below => exact .collection kind below
    | object names each =>
      rw [ElementType.merge, ElementType.mergeFields_eq_mergeByKey]
      constructor
      · rw [map_key_mergeByKey_eq_mergeByKey]
        · exact hP _ _ names names'
        · intro _ _
          rfl
      · exact forall_mem_mergeByKey (fun field source hmem hfield _ => ih source hmem hfield)
          each each'

/-- What holds of two optional values holds of what they are merged into. -/
theorem forall_merge {α : Type} {Q : α → Prop} {op : α → α → α} {x y : Option α}
    (hx : ∀ a, x = some a → Q a) (hy : ∀ b, y = some b → Q b)
    (hop : ∀ a b, x = some a → y = some b → Q a → Q b → Q (op a b)) :
    ∀ c, Option.merge op x y = some c → Q c := by
  intro c hc
  cases x with
  | none =>
    rw [Option.merge_none_left] at hc
    exact hy c hc
  | some a =>
    cases y with
    | none =>
      rw [Option.merge_none_right] at hc
      exact hx c hc
    | some b =>
      cases hc
      exact hop a b rfl rfl (hx a rfl) (hy b rfl)

theorem NamesThroughout.mergeAll (hP : KeptByMerges P) {target source : List Attribute}
    (hmerge : ∀ a : Attribute, ∀ s ∈ source, a.NamesBelow P → s.NamesBelow P →
      (a.merge s).NamesBelow P)
    (htarget : NamesThroughout P target) (hsource : NamesThroughout P source) :
    NamesThroughout P (Attribute.mergeAll target source) := by
  rw [Attribute.mergeAll_eq_mergeByKey]
  constructor
  · rw [map_key_mergeByKey_eq_mergeByKey Attribute.name_merge]
    exact hP _ _ htarget.names hsource.names
  · exact forall_mem_mergeByKey hmerge htarget.each hsource.each

theorem Attribute.NamesBelow.merge (hP : KeptByMerges P) {target source : Attribute}
    (htarget : target.NamesBelow P) (hsource : source.NamesBelow P) :
    (target.merge source).NamesBelow P := by
  induction source using Attribute.inductionOnChildren generalizing target with
  | step source ih =>
    by_cases hvariant : target.variant = source.variant
    · rw [namesBelow_iff] at htarget hsource ⊢
      rw [element?_merge hvariant, children?_merge hvariant]
      constructor
      · exact forall_merge htarget.1 hsource.1 fun _ _ _ _ ht hs => ht.merge hP hs
      · refine forall_merge htarget.2 hsource.2 ?_
        intro l l' _ hl' hbelow hbelow'
        exact hbelow.mergeAll hP (fun a s hs ha => ih l' hl' s hs ha) hbelow'
    · rw [merge_of_variant_ne hvariant]
      exact htarget

theorem forall_namesBelow_mergeAll (hP : KeptByMerges P) {target source : List Attribute}
    (htarget : ∀ a ∈ target, a.NamesBelow P) (hsource : ∀ s ∈ source, s.NamesBelow P) :
    ∀ a ∈ Attribute.mergeAll target source, a.NamesBelow P := by
  rw [Attribute.mergeAll_eq_mergeByKey]
  exact forall_mem_mergeByKey (fun _ _ _ ha hs => ha.merge hP hs) htarget hsource

theorem forall_namesBelow_mergeAttributes (hP : KeptByMerges P) {target : List Attribute}
    {sources : List (List Attribute)} (htarget : ∀ a ∈ target, a.NamesBelow P)
    (hsources : ∀ source ∈ sources, ∀ s ∈ source, s.NamesBelow P) :
    ∀ a ∈ mergeAttributes target sources, a.NamesBelow P := by
  unfold ProviderSchema.mergeAttributes
  induction sources generalizing target with
  | nil => exact htarget
  | cons source rest ih =>
    rw [List.forall_mem_cons] at hsources
    exact ih (forall_namesBelow_mergeAll hP htarget hsources.1) hsources.2

/-- Merged attributes have the names of all lists. -/
theorem mem_map_name_mergeAttributes {target : List Attribute} {sources : List (List Attribute)}
    {name : String} :
    name ∈ (mergeAttributes target sources).map Attribute.name ↔
      ∃ source ∈ target :: sources, name ∈ source.map Attribute.name := by
  rw [Attribute.mergeAttributes_eq_foldl]
  induction sources generalizing target with
  | nil => simp
  | cons source rest ih =>
    rw [List.foldl_cons, ih, List.exists_mem_cons_iff, List.exists_mem_cons_iff,
      List.exists_mem_cons_iff, mem_map_key_mergeByKey Attribute.name_merge, or_assoc]

/-- Merging leaves no name twice, even if the names of the lists that are
merged repeat: only what is below their attributes has to be in order. -/
theorem UniqueNames.mergeAttributes {target : List Attribute} {sources : List (List Attribute)}
    (h : UniqueNames target)
    (hsources : ∀ source ∈ sources, ∀ s ∈ source, s.NamesBelow List.Nodup) :
    UniqueNames (mergeAttributes target sources) := by
  unfold ProviderSchema.mergeAttributes
  induction sources generalizing target with
  | nil => exact h
  | cons source rest ih =>
    rw [List.forall_mem_cons] at hsources
    refine ih ⟨?_, ?_⟩ hsources.2
    · rw [Attribute.mergeAll_eq_mergeByKey]
      exact nodup_map_key_mergeByKey Attribute.name_merge source h.names
    · exact forall_namesBelow_mergeAll keptByMerges_nodup h.each hsources.1

/-! ## Deciding -/

namespace ElementType

mutual

/-- Checks the objects in a shape. -/
def checkFieldNames (P : List String → Prop) [DecidablePred P] : ElementType → Bool
  | .scalar _ => true
  | .collection _ element => element.checkFieldNames P
  | .object fields => decide (P (fields.map (·.1))) && checkFields P fields

/-- Checks the objects in the shapes of fields. -/
def checkFields (P : List String → Prop) [DecidablePred P] : List (String × ElementType) → Bool
  | [] => true
  | (_, type) :: rest => type.checkFieldNames P && checkFields P rest

end

mutual

theorem checkFieldNames_iff [DecidablePred P] (t : ElementType) :
    t.checkFieldNames P = true ↔ t.FieldNames P := by
  cases t with
  | scalar kind => exact iff_of_true rfl (.scalar kind)
  | collection kind element =>
    rw [checkFieldNames, checkFieldNames_iff element]
    constructor
    · exact .collection kind
    · rintro ⟨⟩
      assumption
  | object fields =>
    rw [checkFieldNames, Bool.and_eq_true, decide_eq_true_eq, checkFields_iff fields]
    constructor
    · rintro ⟨names, each⟩
      exact .object names each
    · rintro ⟨⟩
      exact ⟨‹_›, ‹_›⟩

theorem checkFields_iff [DecidablePred P] (fields : List (String × ElementType)) :
    checkFields P fields = true ↔ ∀ field ∈ fields, field.2.FieldNames P := by
  match fields with
  | [] => simp [checkFields]
  | (name, type) :: rest =>
    rw [checkFields, Bool.and_eq_true, checkFieldNames_iff type, checkFields_iff rest,
      List.forall_mem_cons]

end

end ElementType

namespace Attribute

mutual

/-- Checks the lists below an attribute. -/
def checkNamesBelow (P : List String → Prop) [DecidablePred P] : Attribute → Bool
  | .scalar .. => true
  | .collection _ _ _ element => element.checkFieldNames P
  | .nested _ _ _ attributes => decide (P (attributes.map Attribute.name)) && checkAll P attributes
  | .single _ _ attributes => decide (P (attributes.map Attribute.name)) && checkAll P attributes

/-- Checks the lists below each attribute. -/
def checkAll (P : List String → Prop) [DecidablePred P] : List Attribute → Bool
  | [] => true
  | a :: rest => a.checkNamesBelow P && checkAll P rest

end

mutual

theorem checkNamesBelow_iff [DecidablePred P] (a : Attribute) :
    a.checkNamesBelow P = true ↔ a.NamesBelow P := by
  cases a with
  | scalar name traits shape => exact iff_of_true rfl (.scalar name traits shape)
  | collection name traits kind element =>
    rw [checkNamesBelow, ElementType.checkFieldNames_iff]
    constructor
    · exact .collection name traits kind
    · rintro ⟨⟩
      assumption
  | nested name traits kind attributes =>
    rw [checkNamesBelow, Bool.and_eq_true, decide_eq_true_eq, checkAll_iff attributes]
    constructor
    · rintro ⟨names, each⟩
      exact .nested name traits kind names each
    · rintro ⟨⟩
      exact ⟨‹_›, ‹_›⟩
  | single name traits attributes =>
    rw [checkNamesBelow, Bool.and_eq_true, decide_eq_true_eq, checkAll_iff attributes]
    constructor
    · rintro ⟨names, each⟩
      exact .single name traits names each
    · rintro ⟨⟩
      exact ⟨‹_›, ‹_›⟩

theorem checkAll_iff [DecidablePred P] (attributes : List Attribute) :
    checkAll P attributes = true ↔ ∀ a ∈ attributes, a.NamesBelow P := by
  match attributes with
  | [] => simp [checkAll]
  | a :: rest =>
    rw [checkAll, Bool.and_eq_true, checkNamesBelow_iff a, checkAll_iff rest, List.forall_mem_cons]

end

end Attribute

instance [DecidablePred P] (t : ElementType) : Decidable (t.FieldNames P) :=
  decidable_of_iff _ (ElementType.checkFieldNames_iff t)

instance [DecidablePred P] (attributes : List Attribute) :
    Decidable (NamesThroughout P attributes) :=
  decidable_of_iff
    (P (attributes.map Attribute.name) ∧ Attribute.checkAll P attributes = true) <| by
    rw [Attribute.checkAll_iff]
    exact ⟨fun h => ⟨h.1, h.2⟩, fun h => ⟨h.names, h.each⟩⟩

end ProviderSchema
