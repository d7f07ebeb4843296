import ProviderSchema.Proofs.Attribute.MapEach
import ProviderSchema.Proofs.Attribute.NameLists

/-!
# Sources that add nothing

A target covers a source if merging the source changes nothing and meets no
disagreement.  Shapes of values cover themselves, as long as no object has two
fields of one name (`ElementType.covers_self`).

Attributes cover more than themselves.  Who supplies a value and which value
is taken if nobody does are traits that a merge does not look at, so what is
left of an attribute without them (`Attribute.unsupplied`) decides what it is
covered by: attributes that differ in nothing else cover each other
(`Attribute.coversAll_of_unsupplied_eq`).
-/

namespace ProviderSchema

/-! ## Shapes of values -/

namespace ElementType

/-- A source has nothing that the target does not have. -/
structure Covers (target source : ElementType) : Prop where
  merge : target.merge source = target
  mismatches : ∀ path, target.mismatches path source = []

variable {fields sources : List (String × ElementType)}

/-- Fields that are covered by those of their names add nothing. -/
theorem mergeFields_of_covers
    (h : ∀ s ∈ sources, ∃ field, fields.find? (·.1 = s.1) = some field ∧ field.2.Covers s.2) :
    mergeFields fields sources = fields := by
  rw [mergeFields_eq_mergeByKey]
  refine mergeByKey_eq_target ?_
  intro s hs
  obtain ⟨field, hfield, hcovers⟩ := h s hs
  exact ⟨field, hfield, Prod.ext rfl hcovers.merge⟩

theorem fieldMismatches_of_covers
    (h : ∀ s ∈ sources, ∃ field, fields.find? (·.1 = s.1) = some field ∧ field.2.Covers s.2)
    (path : String) : fieldMismatches path fields sources = [] := by
  induction sources with
  | nil => rw [fieldMismatches]
  | cons source rest ih =>
    obtain ⟨name, type⟩ := source
    have hfirst : mergeFields fields [(name, type)] = fields := by
      refine mergeFields_of_covers ?_
      intro s hs
      rw [List.mem_singleton] at hs
      exact hs ▸ h (name, type) List.mem_cons_self
    obtain ⟨⟨name', type'⟩, hfield, hcovers⟩ := h (name, type) List.mem_cons_self
    have hnone := hcovers.mismatches (below path name)
    have hrest := ih fun s hs => h s (List.mem_cons_of_mem _ hs)
    rw [fieldMismatches, hfield, hfirst, hrest]
    simpa using hnone

/-- A shape has nothing that it does not have itself. -/
theorem covers_self {t : ElementType} (h : t.FieldNames List.Nodup) : t.Covers t := by
  induction h with
  | scalar kind => exact ⟨by rw [merge], fun path => by rw [mismatches]; exact if_pos rfl⟩
  | collection kind _ ih =>
    constructor
    · rw [merge, if_pos rfl, ih.merge]
    · intro path
      rw [mismatches, if_pos rfl, ih.mismatches path]
  | @object fields names _ ih =>
    have hfields : ∀ s ∈ fields, ∃ field, fields.find? (·.1 = s.1) = some field ∧
        field.2.Covers s.2 := fun s hs => ⟨s, find?_key_eq_some names hs, ih s hs⟩
    constructor
    · rw [merge, mergeFields_of_covers hfields]
    · intro path
      rw [mismatches, fieldMismatches_of_covers hfields path]

end ElementType

/-! ## Attributes -/

theorem Traits.filledFrom_of_description_eq {t s : Traits} (h : t.description = s.description) :
    t.filledFrom s = t := by
  have hfirst : Attribute.firstDescription t.description [s.description] = t.description := by
    unfold Attribute.firstDescription
    cases hown : Attribute.describes t.description <;> simp [hown, ← h]
  rw [Attribute.filledFrom_eq, hfirst]

/-- The traits without who supplies the value. -/
def Traits.unsupplied (t : Traits) : Traits := { t with computability := .computed }

/-- The shape of a scalar, without the value that is taken if none is given. -/
def ScalarShape.withoutDefault : ScalarShape → ScalarShape
  | .bool _ => .bool none
  | .int64 _ => .int64 none
  | .float64 _ => .float64 none
  | .number _ => .number none
  | .string _ => .string none

@[simp] theorem ScalarShape.kind_withoutDefault (shape : ScalarShape) :
    shape.withoutDefault.kind = shape.kind := by
  cases shape <;> rfl

namespace Attribute

/-- A source has nothing that the target does not have. -/
structure Covers (target source : Attribute) : Prop where
  merge : target.merge source = target
  mismatches : ∀ path, target.mismatches path source = []

/-- So it is for lists of attributes. -/
structure CoversAll (target sources : List Attribute) : Prop where
  merge : mergeAll target sources = target
  mismatches : ∀ path, allMismatches path target sources = []

/-- Attributes that are covered by those of their names add nothing. -/
theorem coversAll_of_find? {target sources : List Attribute}
    (h : ∀ s ∈ sources, ∃ a, target.find? (·.name = s.name) = some a ∧ a.Covers s) :
    CoversAll target sources := by
  have hmerge : ∀ {later : List Attribute}, (∀ s ∈ later, s ∈ sources) →
      mergeAll target later = target := by
    intro later hlater
    rw [mergeAll_eq_mergeByKey]
    refine mergeByKey_eq_target ?_
    intro s hs
    obtain ⟨a, ha, hcovers⟩ := h s (hlater s hs)
    exact ⟨a, ha, hcovers.merge⟩
  refine ⟨hmerge fun s hs => hs, ?_⟩
  intro path
  induction sources with
  | nil => rw [allMismatches]
  | cons source rest ih =>
    have hfirst : mergeAll target [source] = target := hmerge (by simp)
    have hrest := ih (fun s hs => h s (List.mem_cons_of_mem _ hs))
      fun hlater => hmerge fun s hs => List.mem_cons_of_mem _ (hlater s hs)
    obtain ⟨a, ha, hcovers⟩ := h source List.mem_cons_self
    rw [allMismatches, ha, hfirst, hrest]
    simpa using hcovers.mismatches (below path source.name)

/-- An attribute without what is said about who supplies its value, and which
value it has if nobody does; so are all attributes below it. -/
def unsupplied : Attribute → Attribute :=
  mapEach Traits.unsupplied ScalarShape.withoutDefault

theorem unsupplied_collection (name : String) (traits : Traits) (kind : CollectionKind)
    (element : ElementType) :
    (collection name traits kind element).unsupplied =
      collection name traits.unsupplied kind element := by
  rw [unsupplied, mapEach]

theorem unsupplied_nested (name : String) (traits : Traits) (kind : CollectionKind)
    (attributes : List Attribute) :
    (nested name traits kind attributes).unsupplied =
      nested name traits.unsupplied kind (attributes.map unsupplied) := by
  rw [unsupplied, mapEach, mapEachOf_eq_map]

theorem unsupplied_single (name : String) (traits : Traits) (attributes : List Attribute) :
    (single name traits attributes).unsupplied =
      single name traits.unsupplied (attributes.map unsupplied) := by
  rw [unsupplied, mapEach, mapEachOf_eq_map]

@[simp] theorem name_unsupplied (a : Attribute) : a.unsupplied.name = a.name :=
  name_mapEach _ _ a

variable {a s : Attribute}

theorem variant_eq_of_unsupplied_eq (h : a.unsupplied = s.unsupplied) :
    a.variant = s.variant := by
  have hvariant := congrArg variant h
  rwa [unsupplied, variant_mapEach _ ScalarShape.kind_withoutDefault,
    variant_mapEach _ ScalarShape.kind_withoutDefault] at hvariant

theorem description_eq_of_unsupplied_eq (h : a.unsupplied = s.unsupplied) :
    a.traits.description = s.traits.description := by
  have htraits := congrArg (fun b => b.traits.description) h
  simpa only [unsupplied, traits_mapEach, Traits.unsupplied] using htraits

theorem element?_eq_of_unsupplied_eq (h : a.unsupplied = s.unsupplied) :
    a.element? = s.element? := by
  have helement := congrArg element? h
  rwa [unsupplied, element?_mapEach, element?_mapEach] at helement

theorem children?_eq_of_unsupplied_eq (h : a.unsupplied = s.unsupplied) :
    a.children?.map (List.map unsupplied) = s.children?.map (List.map unsupplied) := by
  have hchildren := congrArg children? h
  rwa [unsupplied, children?_mapEach, children?_mapEach] at hchildren

/-- Lists with unique names cover each other if their attributes do one by
one. -/
theorem coversAll_of_map_unsupplied_eq {target sources : List Attribute}
    (hnames : (target.map name).Nodup)
    (hcovers : ∀ a ∈ target, ∀ s : Attribute, a.unsupplied = s.unsupplied → a.Covers s)
    (h : target.map unsupplied = sources.map unsupplied) : CoversAll target sources := by
  refine coversAll_of_find? ?_
  intro s hs
  have hmem : s.unsupplied ∈ target.map unsupplied := h ▸ List.mem_map_of_mem hs
  obtain ⟨a, ha, heq⟩ := List.mem_map.mp hmem
  have hname : a.name = s.name := by rw [← name_unsupplied a, heq, name_unsupplied]
  exact ⟨a, hname ▸ find?_key_eq_some hnames ha, hcovers a ha s heq⟩

/-- Attributes of one variant cover each other part by part. -/
theorem covers_of_parts (hvariant : a.variant = s.variant)
    (htraits : a.traits.filledFrom s.traits = a.traits)
    (helement : ∀ t t', a.element? = some t → s.element? = some t' → t.Covers t')
    (hchildren : ∀ l l', a.children? = some l → s.children? = some l' → CoversAll l l') :
    a.Covers s := by
  cases a with
  | scalar name traits shape =>
    cases s with
    | scalar name' traits' shape' =>
      have hkind : shape.kind = shape'.kind := Variant.scalar.inj hvariant
      change traits.filledFrom traits' = traits at htraits
      constructor
      · rw [merge, if_pos hkind, htraits]
      · intro path
        rw [mismatches]
        exact if_pos (congrArg ScalarKind.name hkind)
    | _ => cases hvariant
  | collection name traits kind element =>
    cases s with
    | collection name' traits' kind' element' =>
      have hkind : kind = kind' := Variant.collection.inj hvariant
      have hcovers := helement element element' rfl rfl
      change traits.filledFrom traits' = traits at htraits
      constructor
      · rw [merge, if_pos hkind, htraits, hcovers.merge]
      · intro path
        rw [mismatches, if_pos hkind, hcovers.mismatches path]
    | _ => cases hvariant
  | nested name traits kind attributes =>
    cases s with
    | nested name' traits' kind' attributes' =>
      have hkind : kind = kind' := Variant.nested.inj hvariant
      have hcovers := hchildren attributes attributes' rfl rfl
      change traits.filledFrom traits' = traits at htraits
      constructor
      · rw [merge, if_pos hkind, htraits, hcovers.merge]
      · intro path
        rw [mismatches, if_pos hkind, hcovers.mismatches path]
    | _ => cases hvariant
  | single name traits attributes =>
    cases s with
    | single name' traits' attributes' =>
      have hcovers := hchildren attributes attributes' rfl rfl
      change traits.filledFrom traits' = traits at htraits
      constructor
      · rw [merge, htraits, hcovers.merge]
      · intro path
        rw [mismatches, hcovers.mismatches path]
    | _ => cases hvariant

/-- Attributes that differ only in who supplies the values cover each other. -/
theorem covers_of_unsupplied_eq (hnames : a.NamesBelow List.Nodup)
    (h : a.unsupplied = s.unsupplied) : a.Covers s := by
  induction a using inductionOnChildren generalizing s with
  | step a ih =>
    have hbelow := namesBelow_iff.mp hnames
    have hfilled := Traits.filledFrom_of_description_eq (description_eq_of_unsupplied_eq h)
    refine covers_of_parts (variant_eq_of_unsupplied_eq h) hfilled ?_ ?_
    · intro t t' ht ht'
      have heq : t = t' := by
        rw [← Option.some.injEq, ← ht, ← ht', element?_eq_of_unsupplied_eq h]
      exact heq ▸ ElementType.covers_self (hbelow.1 t ht)
    · intro l l' hl hl'
      have hlists := children?_eq_of_unsupplied_eq h
      rw [hl, hl', Option.map_some, Option.map_some, Option.some.injEq] at hlists
      have hunique := hbelow.2 l hl
      refine coversAll_of_map_unsupplied_eq hunique.names ?_ hlists
      intro c hc s' heq
      exact ih l hl c hc (hunique.each c hc) heq

/-- So do lists of such attributes, with unique names. -/
theorem coversAll_of_unsupplied_eq {target sources : List Attribute} (hnames : UniqueNames target)
    (h : target.map unsupplied = sources.map unsupplied) : CoversAll target sources :=
  coversAll_of_map_unsupplied_eq hnames.names
    (fun a ha _ => covers_of_unsupplied_eq (hnames.each a ha)) h

end Attribute

end ProviderSchema
