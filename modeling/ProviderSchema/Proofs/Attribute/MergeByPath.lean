import Mathlib.Data.List.Infix
import ProviderSchema.Attribute.Lookup
import ProviderSchema.Proofs.Attribute.NameLists

/-!
# Merges, path by path

What a merge of attributes has at a path depends on what its lists have there.
Not every list has a say, though: a list whose attribute is of another variant
than the merged one, somewhere above the path, is ignored from there on.
`Reaches` says which lists count at a path, and `contributions` collects what
they have there.

The central lemma is `childrenAt?_mergeAttributes`, by induction on the path:
the attributes below a path are the merge of the attributes that the lists
have below it.  `findNames?_mergeAttributes` follows from it, and
`mergedByPath_mergeAttributes` sums up what it says about one attribute, about
the order of the attributes below a path and about their names.
-/

namespace ProviderSchema.Attribute

/-! ## Attributes below a path -/

/-- The attributes below a path.  Those below the empty path are the list
itself. -/
def childrenAt? : List String → List Attribute → Option (List Attribute)
  | [], attributes => some attributes
  | name :: path, attributes =>
    ((attributes.find? (·.name = name)).bind children?).bind (childrenAt? path)

theorem findNames?_append_singleton (path : List String) (name : String)
    (attributes : List Attribute) :
    findNames? (path ++ [name]) attributes =
      (childrenAt? path attributes).bind fun l => l.find? (·.name = name) := by
  induction path generalizing attributes with
  | nil => rfl
  | cons first rest ih =>
    rw [List.cons_append, findNames?, childrenAt?]
    · cases attributes.find? (·.name = first) with
      | none => rfl
      | some a => cases hchildren : a.children? <;> simp [hchildren, ih]
    · simp

theorem childrenAt?_append_singleton (path : List String) (name : String)
    (attributes : List Attribute) :
    childrenAt? (path ++ [name]) attributes =
      (findNames? (path ++ [name]) attributes).bind children? := by
  induction path generalizing attributes with
  | nil => simp [childrenAt?, findNames?]
  | cons first rest ih =>
    rw [List.cons_append, findNames?, childrenAt?]
    · cases attributes.find? (·.name = first) with
      | none => rfl
      | some a => cases hchildren : a.children? <;> simp [hchildren, ih]
    · simp

/-- The attributes below a path have unique names. -/
theorem uniqueNames_of_childrenAt? {path : List String} {attributes level : List Attribute}
    (h : UniqueNames attributes) (hlevel : childrenAt? path attributes = some level) :
    UniqueNames level := by
  induction path generalizing attributes with
  | nil =>
    cases hlevel
    exact h
  | cons first rest ih =>
    rw [childrenAt?, Option.bind_eq_some_iff] at hlevel
    obtain ⟨children, hchildren, hlevel⟩ := hlevel
    rw [Option.bind_eq_some_iff] at hchildren
    obtain ⟨a, hfind, hchildren⟩ := hchildren
    have hbelow := h.each a (List.mem_of_find?_eq_some hfind)
    exact ih ((namesBelow_iff.mp hbelow).2 children hchildren) hlevel

/-! ## Lists that count at a path -/

/-- The variant of the attribute at a path. -/
def variantAt? (path : List String) (attributes : List Attribute) : Option Variant :=
  (findNames? path attributes).map variant

/-- A list has an attribute at a path, and on the way to it the same variants
as the merged attributes. -/
def Reaches (merged source : List Attribute) (path : List String) : Prop :=
  (findNames? path source).isSome ∧
    ∀ above ∈ path.inits, above ≠ path → variantAt? above source = variantAt? above merged

/-- A list has the same variants as the merged attributes at a path and on the
way to it. -/
def Aligned (merged source : List Attribute) (path : List String) : Prop :=
  ∀ above ∈ path.inits, variantAt? above source = variantAt? above merged

instance (merged source : List Attribute) (path : List String) :
    Decidable (Reaches merged source path) := by
  unfold Reaches
  infer_instance

instance (merged source : List Attribute) (path : List String) :
    Decidable (Aligned merged source path) := by
  unfold Aligned
  infer_instance

theorem aligned_nil (merged source : List Attribute) : Aligned merged source [] := by
  intro above habove
  rw [List.mem_inits, List.prefix_nil] at habove
  rw [habove]
  rfl

theorem aligned_append_singleton (merged source : List Attribute) (path : List String)
    (name : String) :
    Aligned merged source (path ++ [name]) ↔
      Aligned merged source path ∧
        variantAt? (path ++ [name]) source = variantAt? (path ++ [name]) merged := by
  unfold Aligned
  rw [List.inits_append, List.forall_mem_append]
  simp

/-- A list reaches an attribute if it is aligned above it. -/
theorem reaches_append_singleton (merged source : List Attribute) (path : List String)
    (name : String) :
    Reaches merged source (path ++ [name]) ↔
      (findNames? (path ++ [name]) source).isSome ∧ Aligned merged source path := by
  have hne : ∀ above ∈ path.inits, above ≠ path ++ [name] := by
    intro above habove heq
    have hlength := ((List.mem_inits _ _).mp habove).length_le
    rw [heq, List.length_append, List.length_singleton] at hlength
    omega
  unfold Reaches Aligned
  rw [List.inits_append, List.forall_mem_append]
  constructor
  · rintro ⟨hsome, habove, -⟩
    exact ⟨hsome, fun above hmem => habove above hmem (hne above hmem)⟩
  · rintro ⟨hsome, habove⟩
    refine ⟨hsome, fun above hmem _ => habove above hmem, ?_⟩
    simp

/-- What the lists that count at a path have there. -/
def contributions (merged : List Attribute) (lists : List (List Attribute))
    (path : List String) : List Attribute :=
  lists.filterMap fun source =>
    if Reaches merged source path then findNames? path source else none

/-- What the lists that count below a path have below it. -/
def levels (merged : List Attribute) (lists : List (List Attribute)) (path : List String) :
    List (List Attribute) :=
  lists.filterMap fun source =>
    if Aligned merged source path then childrenAt? path source else none

theorem levels_nil (merged : List Attribute) (lists : List (List Attribute)) :
    levels merged lists [] = lists := by
  simp [levels, aligned_nil, childrenAt?]

/-- What lists with unique names have below a path has unique names. -/
theorem uniqueNames_of_mem_levels {merged level : List Attribute} {lists : List (List Attribute)}
    (h : ∀ source ∈ lists, UniqueNames source) {path : List String}
    (hlevel : level ∈ levels merged lists path) : UniqueNames level := by
  obtain ⟨source, hsource, hlevel⟩ := List.mem_filterMap.mp hlevel
  split at hlevel
  · exact uniqueNames_of_childrenAt? (h source hsource) hlevel
  · cases hlevel

/-- What there is at a path is found below the path to it. -/
theorem contributions_append_singleton (merged : List Attribute) (lists : List (List Attribute))
    (path : List String) (name : String) :
    contributions merged lists (path ++ [name]) =
      (levels merged lists path).filterMap fun l => l.find? (·.name = name) := by
  unfold contributions levels
  rw [List.filterMap_filterMap]
  congr 1
  funext source
  simp only [reaches_append_singleton]
  by_cases haligned : Aligned merged source path
  · simp only [haligned, and_true, if_true, findNames?_append_singleton]
    cases (childrenAt? path source).bind fun l => l.find? (·.name = name) <;> simp
  · simp [haligned]

/-- What there is below a path is below the attributes at it that have the
variant of the merged one. -/
theorem levels_append_singleton (merged : List Attribute) (lists : List (List Attribute))
    (path : List String) (name : String) :
    levels merged lists (path ++ [name]) =
      ((contributions merged lists (path ++ [name])).filter fun a =>
        some a.variant = variantAt? (path ++ [name]) merged).filterMap children? := by
  unfold contributions levels
  rw [List.filterMap_filter, List.filterMap_filterMap]
  congr 1
  funext source
  simp only [reaches_append_singleton, aligned_append_singleton, childrenAt?_append_singleton]
  by_cases haligned : Aligned merged source path
  · rw [variantAt?]
    cases findNames? (path ++ [name]) source <;> simp [haligned]
  · simp [haligned]

/-! ## What a merge has at a path -/

/-- The attributes below a merged one are merged from those below the ones of
its variant. -/
theorem children?_combineAll? (l : List Attribute) :
    (combineAll? merge l).bind children? =
      combineAll? mergeAll
        ((l.filter fun a => some a.variant = (combineAll? merge l).map variant).filterMap
          children?) := by
  cases l with
  | nil => rfl
  | cons first later =>
    have hvariant : (combineAll? merge (first :: later)).map variant = some first.variant := by
      rw [combineAll?, Option.map_some, variant_foldl_merge]
    have hpeers : (first :: later).filter (fun a => some a.variant = some first.variant) =
        first :: peers first later := by
      rw [List.filter_cons_of_pos (by simp), peers]
      simp [eq_comm]
    rw [hvariant, hpeers, combineAll?, Option.bind_some, children?_foldl_merge]
    cases hchildren : first.children? with
    | none =>
      have hnone : (peers first later).filterMap children? = [] := by
        rw [List.filterMap_eq_nil_iff]
        intro a ha
        have hsame : first.variant = a.variant := by simpa using (List.mem_filter.mp ha).2
        have hsome := isSome_children?_eq hsame
        rw [hchildren] at hsome
        simpa using hsome.symm
      simp [hchildren, hnone, combineAll?]
    | some children => simp [hchildren, combineAll?, mergeAttributes]

section Merge

variable {target : List Attribute} {sources : List (List Attribute)}

/-- If the lists below a path are merged into what the merge has below it, the
attributes at a longer path are merged into what it has there. -/
theorem findNames?_append_singleton_of_childrenAt? {merged : List Attribute}
    {lists : List (List Attribute)} (h : ∀ source ∈ lists, UniqueNames source)
    {path : List String}
    (hpath : childrenAt? path merged = combineAll? mergeAll (levels merged lists path))
    (name : String) :
    findNames? (path ++ [name]) merged =
      combineAll? merge (contributions merged lists (path ++ [name])) := by
  have hlevels : ∀ level ∈ levels merged lists path, (level.map Attribute.name).Nodup :=
    fun level hlevel => (uniqueNames_of_mem_levels h hlevel).names
  rw [findNames?_append_singleton, hpath, contributions_append_singleton]
  cases hcases : levels merged lists path with
  | nil => rfl
  | cons first later =>
    rw [hcases, List.forall_mem_cons] at hlevels
    have hfind := find?_foldl_mergeByKey name_merge first hlevels.2 name
    rw [← mergeAttributes_eq_foldl] at hfind
    exact hfind

/-- Below a path a merge has the merge of what its lists have there. -/
theorem childrenAt?_mergeAttributes (h : ∀ source ∈ target :: sources, UniqueNames source)
    (path : List String) :
    childrenAt? path (mergeAttributes target sources) =
      combineAll? mergeAll
        (levels (mergeAttributes target sources) (target :: sources) path) := by
  induction path using List.reverseRecOn with
  | nil =>
    rw [levels_nil]
    rfl
  | append_singleton path name ih =>
    have hfind := findNames?_append_singleton_of_childrenAt? h ih name
    rw [childrenAt?_append_singleton, levels_append_singleton, variantAt?, hfind,
      children?_combineAll?]

/-- At a path a merge has the attributes of its lists, merged in order. -/
theorem findNames?_mergeAttributes (h : ∀ source ∈ target :: sources, UniqueNames source)
    (path : List String) :
    findNames? path (mergeAttributes target sources) =
      combineAll? merge
        (contributions (mergeAttributes target sources) (target :: sources) path) := by
  induction path using List.reverseRecOn with
  | nil => simp [findNames?, contributions, combineAll?]
  | append_singleton path name _ =>
    exact findNames?_append_singleton_of_childrenAt? h (childrenAt?_mergeAttributes h path) name

/-- A merge has an attribute at a path if one of its lists reaches it. -/
theorem isSome_findNames?_mergeAttributes (h : ∀ source ∈ target :: sources, UniqueNames source)
    (path : List String) :
    (findNames? path (mergeAttributes target sources)).isSome ↔
      ∃ source ∈ target :: sources, Reaches (mergeAttributes target sources) source path := by
  rw [findNames?_mergeAttributes h]
  cases hcontributions :
      contributions (mergeAttributes target sources) (target :: sources) path with
  | nil =>
    refine iff_of_false (by simp [combineAll?]) ?_
    rintro ⟨source, hsource, hreaches⟩
    have hnone := List.filterMap_eq_nil_iff.mp hcontributions source hsource
    rw [if_pos hreaches] at hnone
    simpa [hnone] using hreaches.1
  | cons first later =>
    refine iff_of_true rfl ?_
    have hfirst : first ∈ contributions (mergeAttributes target sources) (target :: sources) path :=
      hcontributions ▸ List.mem_cons_self
    obtain ⟨source, hsource, hfirst⟩ := List.mem_filterMap.mp hfirst
    refine ⟨source, hsource, ?_⟩
    by_contra hreaches
    rw [if_neg hreaches] at hfirst
    cases hfirst

end Merge

/-! ## The order of the names -/

/-- The names below a path, list by list, of the attributes that the lists
reach. -/
def contributedNames (merged : List Attribute) (lists : List (List Attribute))
    (path : List String) : List String :=
  lists.flatMap fun source =>
    (((childrenAt? path source).getD []).map name).filter fun n =>
      Reaches merged source (path ++ [n])

/-- A list reaches all attributes below a path or none of them. -/
theorem contributedNames_eq_flatMap_levels (merged : List Attribute)
    (lists : List (List Attribute)) (path : List String) :
    contributedNames merged lists path =
      (levels merged lists path).flatMap fun level => level.map name := by
  induction lists with
  | nil => rfl
  | cons source rest ih =>
    unfold contributedNames levels at ih ⊢
    rw [List.flatMap_cons, ih, List.filterMap_cons]
    by_cases haligned : Aligned merged source path
    · simp only [reaches_append_singleton, haligned, and_true, if_true, findNames?_append_singleton]
      cases childrenAt? path source with
      | none => rfl
      | some level =>
        simp
    · simp [reaches_append_singleton, haligned]

/-! ## The law of merges -/

/-- What a merged attribute has of the first one that contributes to it and of
the later ones. -/
structure Settled (first : Attribute) (later : List Attribute) (merged : Attribute) : Prop where
  name : merged.name = first.name
  variant : merged.variant = first.variant
  computability : merged.traits.computability = first.traits.computability
  validators : merged.traits.validators = first.traits.validators
  sensitive : merged.traits.sensitive = first.traits.sensitive
  deprecation : merged.traits.deprecation = first.traits.deprecation
  /-- The shape of a scalar holds its default value. -/
  default : merged.scalar? = first.scalar?
  /-- A description that says nothing gives way to the first one of a peer that
  says something. -/
  description : merged.traits.description =
    firstDescription first.traits.description
      ((peers first later).map fun s => s.traits.description)
  /-- Shapes of members are merged with those of the peers. -/
  element : merged.element? = first.element?.map fun t =>
    ((peers first later).filterMap element?).foldl ElementType.merge t

theorem settled_foldl_merge (first : Attribute) (later : List Attribute) :
    Settled first later (later.foldl merge first) := by
  have htraits := traits_foldl_merge first later
  exact {
    name := name_foldl_merge first later
    variant := variant_foldl_merge first later
    computability := by rw [htraits]
    validators := by rw [htraits]
    sensitive := by rw [htraits]
    deprecation := by rw [htraits]
    default := scalar?_foldl_merge first later
    description := by rw [htraits]
    element := element?_foldl_merge first later }

/-- Attributes are what lists are merged into, path by path. -/
structure MergedByPath (lists : List (List Attribute)) (merged : List Attribute) : Prop where
  /-- There is an attribute at a path if one of the lists reaches it. -/
  exists_iff : ∀ path,
    (findNames? path merged).isSome ↔ ∃ source ∈ lists, Reaches merged source path
  /-- It is settled by the attributes of the lists that reach it. -/
  settled : ∀ path a, findNames? path merged = some a →
    ∃ first later, contributions merged lists path = first :: later ∧ Settled first later a
  /-- The attributes below a path stand in the order of the lists, and of their
  places in the first list that has them. -/
  siblings : ∀ path level, childrenAt? path merged = some level →
    level.map name = (contributedNames merged lists path).eraseDups
  /-- No name occurs twice. -/
  unique : UniqueNames merged

/-- The law of merges: whatever the number of lists, and wherever they
disagree, every path of the merge has what the lists that reach it make of
it. -/
theorem mergedByPath_mergeAttributes (target : List Attribute) (sources : List (List Attribute))
    (h : ∀ source ∈ target :: sources, UniqueNames source) :
    MergedByPath (target :: sources) (mergeAttributes target sources) where
  exists_iff := isSome_findNames?_mergeAttributes h
  settled := by
    intro path a ha
    rw [findNames?_mergeAttributes h] at ha
    cases hcontributions :
        contributions (mergeAttributes target sources) (target :: sources) path with
    | nil =>
      rw [hcontributions] at ha
      cases ha
    | cons first later =>
      rw [hcontributions] at ha
      cases ha
      exact ⟨first, later, rfl, settled_foldl_merge first later⟩
  siblings := by
    intro path level hlevel
    rw [childrenAt?_mergeAttributes h] at hlevel
    rw [contributedNames_eq_flatMap_levels]
    cases hlevels : levels (mergeAttributes target sources) (target :: sources) path with
    | nil =>
      rw [hlevels] at hlevel
      cases hlevel
    | cons first later =>
      have hfirst : first ∈ levels (mergeAttributes target sources) (target :: sources) path :=
        hlevels ▸ List.mem_cons_self
      rw [hlevels] at hlevel
      cases hlevel
      have hunique := uniqueNames_of_mem_levels h hfirst
      rw [show later.foldl mergeAll first = mergeAttributes first later from rfl,
        mergeAttributes_eq_foldl, map_key_foldl_mergeByKey name_merge later hunique.names]
  unique := by
    rw [List.forall_mem_cons] at h
    exact h.1.mergeAttributes fun source hsource => (h.2 source hsource).each

/-- A text with a description. -/
def describedText (name description : String) : Attribute :=
  .scalar name { computability := .optional, description := some description } (.string none)

/-- Three lists, of which the second one disagrees about what tags are. -/
def taggings : List (List Attribute) :=
  [[.nested "tags" { computability := .computed } .list [describedText "key" ""]],
    [.single "tags" { computability := .required } [describedText "key" "Of one tag."]],
    [.nested "tags" { computability := .optional } .list
      [describedText "value" "A value.", describedText "key" "A key."]]]

/-- The second list has no say in what is below the tags: the key is described
by the third one. -/
theorem mergedByPath_taggings :
    (∀ source ∈ taggings, UniqueNames source) ∧
      MergedByPath taggings (mergeAttributes taggings.head! taggings.tail) ∧
      (findNames? ["tags", "key"] (mergeAttributes taggings.head! taggings.tail)).map traits =
        some { computability := .optional, description := some "A key." } :=
  have h : ∀ source ∈ taggings, UniqueNames source := by decide
  ⟨h, mergedByPath_mergeAttributes taggings.head! taggings.tail h, by rfl⟩

end ProviderSchema.Attribute
