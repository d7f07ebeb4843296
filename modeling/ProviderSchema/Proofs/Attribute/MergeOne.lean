import ProviderSchema.Attribute.Merge
import ProviderSchema.Proofs.Document.MergeByKey

/-!
# Merging one attribute with others

`Attribute.merge` fills an attribute from another one of the same variant and
ignores one of another variant.  The first half of this module says so field
by field, for one merge.

The second half does the same for an attribute that is merged with one after
the other.  Those of another variant can be left out (`peers`), because no
merge changes the variant.  What the result says is then, field by field, what
the attribute and its peers say, combined from left to right:
`traits_foldl_merge`, `scalar?_foldl_merge`, `element?_foldl_merge` and
`children?_foldl_merge`.
-/

namespace ProviderSchema

/-! ## Merges of lists -/

theorem ElementType.mergeFields_eq_mergeByKey (target sources : List (String × ElementType)) :
    mergeFields target sources =
      mergeByKey (·.1) (fun field source => (field.1, field.2.merge source.2)) target sources := by
  induction sources generalizing target with
  | nil => rw [mergeFields, mergeByKey]
  | cons source rest ih => rw [mergeFields, mergeByKey, ih]

/-- The field of a name after a merge. -/
theorem ElementType.get?_mergeFields (target : List (String × ElementType))
    {sources : List (String × ElementType)} (h : (sources.map (·.1)).Nodup) (name : String) :
    Table.get? (mergeFields target sources) name =
      Option.merge merge (Table.get? target name) (Table.get? sources name) := by
  have hfind := @find?_mergeByKey _ (fun field : String × ElementType => field.1)
    (fun field source => (field.1, field.2.merge source.2)) (fun _ _ => rfl) target sources h name
  rw [Table.get?, Table.get?, Table.get?, mergeFields_eq_mergeByKey, hfind]
  cases target.find? (·.1 = name) <;> cases sources.find? (·.1 = name) <;> rfl

namespace Attribute

theorem mergeAll_eq_mergeByKey (target sources : List Attribute) :
    mergeAll target sources = mergeByKey name merge target sources := by
  induction sources generalizing target with
  | nil => rw [mergeAll, mergeByKey]
  | cons source rest ih => rw [mergeAll, mergeByKey, ih]

theorem mergeAttributes_eq_foldl (target : List Attribute) (sources : List (List Attribute)) :
    mergeAttributes target sources = sources.foldl (mergeByKey name merge) target := by
  unfold mergeAttributes
  congr 1
  funext target source
  exact mergeAll_eq_mergeByKey target source

/-! ## Variants -/

/-- What has to be the same for one attribute to be filled from another one. -/
inductive Variant where
  | scalar (kind : ScalarKind)
  | collection (kind : CollectionKind)
  | nested (kind : CollectionKind)
  | single
deriving DecidableEq, Repr

/-- The variant of an attribute. -/
def variant : Attribute → Variant
  | .scalar _ _ shape => .scalar shape.kind
  | .collection _ _ kind _ => .collection kind
  | .nested _ _ kind _ => .nested kind
  | .single .. => .single

/-- The shape of a scalar, with the value it has if none is given. -/
def scalar? : Attribute → Option ScalarShape
  | .scalar _ _ shape => some shape
  | _ => none

/-- Attributes of one variant have nested attributes, or not, alike. -/
theorem isSome_children?_eq {a s : Attribute} (h : a.variant = s.variant) :
    a.children?.isSome = s.children?.isSome := by
  cases a <;> cases s <;> simp_all [variant, children?]

/-- Attributes of one variant have members of a shape, or not, alike. -/
theorem isSome_element?_eq {a s : Attribute} (h : a.variant = s.variant) :
    a.element?.isSome = s.element?.isSome := by
  cases a <;> cases s <;> simp_all [variant, element?]

/-! ## One merge -/

theorem merge_of_variant_ne {a s : Attribute} (h : a.variant ≠ s.variant) :
    a.merge s = a := by
  cases a <;> cases s <;> simp_all [variant, merge]

@[simp] theorem name_merge (a s : Attribute) : (a.merge s).name = a.name := by
  by_cases h : a.variant = s.variant
  · cases a <;> cases s <;> simp_all [variant, merge, name]
  · rw [merge_of_variant_ne h]

@[simp] theorem variant_merge (a s : Attribute) : (a.merge s).variant = a.variant := by
  by_cases h : a.variant = s.variant
  · cases a <;> cases s <;> simp_all [variant, merge]
  · rw [merge_of_variant_ne h]

@[simp] theorem scalar?_merge (a s : Attribute) : (a.merge s).scalar? = a.scalar? := by
  by_cases h : a.variant = s.variant
  · cases a <;> cases s <;> simp_all [variant, merge, scalar?]
  · rw [merge_of_variant_ne h]

theorem traits_merge {a s : Attribute} (h : a.variant = s.variant) :
    (a.merge s).traits = a.traits.filledFrom s.traits := by
  cases a <;> cases s <;> simp_all [variant, merge, traits]

theorem element?_merge {a s : Attribute} (h : a.variant = s.variant) :
    (a.merge s).element? = Option.merge ElementType.merge a.element? s.element? := by
  cases a <;> cases s <;> simp_all [variant, merge, element?]

theorem children?_merge {a s : Attribute} (h : a.variant = s.variant) :
    (a.merge s).children? = Option.merge mergeAll a.children? s.children? := by
  cases a <;> cases s <;> simp_all [variant, merge, children?]

/-! ## Many merges -/

/-- The attributes of the variant of a first one. -/
def peers (first : Attribute) (later : List Attribute) : List Attribute :=
  later.filter fun s => first.variant = s.variant

/-- What a merge makes of two attributes of one variant, many merges make of
an attribute and its peers. -/
theorem map_foldl_merge {β : Type} (g : Attribute → β) (op : β → β → β)
    (hg : ∀ a s, a.variant = s.variant → g (a.merge s) = op (g a) (g s))
    (first : Attribute) (later : List Attribute) :
    g (later.foldl merge first) = ((peers first later).map g).foldl op (g first) := by
  induction later generalizing first with
  | nil => rfl
  | cons s rest ih =>
    have hpeers : peers (first.merge s) rest = peers first rest := by
      unfold peers
      rw [variant_merge]
    rw [List.foldl_cons, ih, hpeers]
    by_cases h : first.variant = s.variant
    · simp [peers, h, hg first s h]
    · simp [peers, h, merge_of_variant_ne h]

theorem variant_foldl_merge (first : Attribute) (later : List Attribute) :
    (later.foldl merge first).variant = first.variant := by
  induction later generalizing first with
  | nil => rfl
  | cons s rest ih => rw [List.foldl_cons, ih, variant_merge]

theorem name_foldl_merge (first : Attribute) (later : List Attribute) :
    (later.foldl merge first).name = first.name := by
  induction later generalizing first with
  | nil => rfl
  | cons s rest ih => rw [List.foldl_cons, ih, name_merge]

theorem scalar?_foldl_merge (first : Attribute) (later : List Attribute) :
    (later.foldl merge first).scalar? = first.scalar? := by
  induction later generalizing first with
  | nil => rfl
  | cons s rest ih => rw [List.foldl_cons, ih, scalar?_merge]

/-- Optional values are combined from left to right like those that are there. -/
theorem foldl_map_merge {α β : Type} (g : α → Option β) (op : β → β → β) (first : β)
    (l : List α) :
    (l.map g).foldl (Option.merge op) (some first) = some ((l.filterMap g).foldl op first) := by
  induction l generalizing first with
  | nil => rfl
  | cons a rest ih =>
    rw [List.map_cons, List.foldl_cons, List.filterMap_cons]
    cases g a <;> simp [ih]

/-- What only attributes of some variants have is combined like the attributes
that have it. -/
theorem map_foldl_merge_of_isSome_eq {β : Type} (g : Attribute → Option β) (op : β → β → β)
    (hsome : ∀ {a s : Attribute}, a.variant = s.variant → (g a).isSome = (g s).isSome)
    (hg : ∀ a s, a.variant = s.variant → g (a.merge s) = Option.merge op (g a) (g s))
    (first : Attribute) (later : List Attribute) :
    g (later.foldl merge first) =
      (g first).map fun b => ((peers first later).filterMap g).foldl op b := by
  cases hfirst : g first with
  | none =>
    have hnone := hsome (variant_foldl_merge first later)
    rw [hfirst] at hnone
    simpa using hnone
  | some b =>
    rw [map_foldl_merge g (Option.merge op) hg first later, hfirst, foldl_map_merge]
    rfl

/-- The shape of the members of a collection is merged from those of its peers. -/
theorem element?_foldl_merge (first : Attribute) (later : List Attribute) :
    (later.foldl merge first).element? =
      first.element?.map fun t =>
        ((peers first later).filterMap element?).foldl ElementType.merge t :=
  map_foldl_merge_of_isSome_eq element? ElementType.merge isSome_element?_eq
    (fun _ _ => element?_merge) first later

/-- The nested attributes are merged from those of the peers. -/
theorem children?_foldl_merge (first : Attribute) (later : List Attribute) :
    (later.foldl merge first).children? =
      first.children?.map fun l =>
        mergeAttributes l ((peers first later).filterMap children?) :=
  map_foldl_merge_of_isSome_eq children? mergeAll isSome_children?_eq
    (fun _ _ => children?_merge) first later

/-! ## Traits -/

/-- Whether there is a description that says something. -/
def describes : Option String → Bool
  | some d => d ≠ ""
  | none => false

/-- The first description that says something, or else the first one. -/
def firstDescription (own : Option String) (later : List (Option String)) : Option String :=
  ((own :: later).find? describes).getD own

theorem filledFrom_eq (t s : Traits) :
    t.filledFrom s = { t with description := firstDescription t.description [s.description] } := by
  obtain ⟨computability, own, deprecation, sensitive, validators⟩ := t
  obtain ⟨_, other, _, _, _⟩ := s
  unfold Traits.filledFrom firstDescription
  rcases own with _ | d <;> rcases other with _ | e
  · rfl
  · by_cases he : e = "" <;> simp [describes, he]
  · by_cases hd : d = "" <;> simp [describes, hd]
  · by_cases hd : d = "" <;> by_cases he : e = "" <;> simp [describes, hd, he]

theorem firstDescription_firstDescription (own other : Option String)
    (later : List (Option String)) :
    firstDescription (firstDescription own [other]) later =
      firstDescription own (other :: later) := by
  unfold firstDescription
  cases hown : describes own <;> cases hother : describes other <;>
    simp [hown, hother]

/-- It does not matter in which order traits are filled in. -/
theorem filledFrom_assoc (t s r : Traits) :
    (t.filledFrom s).filledFrom r = t.filledFrom (s.filledFrom r) := by
  simp only [filledFrom_eq, firstDescription_firstDescription]
  unfold firstDescription
  cases hown : describes t.description <;> cases hother : describes s.description <;>
    cases hlast : describes r.description <;> simp [hown, hother, hlast]

/-- Only the description is filled in, from the first traits that have one. -/
theorem foldl_filledFrom (t : Traits) (later : List Traits) :
    later.foldl Traits.filledFrom t =
      { t with description := firstDescription t.description (later.map Traits.description) } := by
  induction later generalizing t with
  | nil =>
    obtain ⟨computability, own, deprecation, sensitive, validators⟩ := t
    unfold firstDescription
    cases hown : describes own <;> simp [hown]
  | cons s rest ih =>
    have hdescription := firstDescription_firstDescription t.description s.description
      (rest.map Traits.description)
    rw [List.foldl_cons, ih, filledFrom_eq, List.map_cons, ← hdescription]

/-- The traits of an attribute, with the first description of its peers if it
has none. -/
theorem traits_foldl_merge (first : Attribute) (later : List Attribute) :
    (later.foldl merge first).traits =
      { first.traits with
        description := firstDescription first.traits.description
          ((peers first later).map fun s => s.traits.description) } := by
  rw [map_foldl_merge traits Traits.filledFrom (fun _ _ => traits_merge) first later,
    foldl_filledFrom, List.map_map]
  rfl

end Attribute

end ProviderSchema
