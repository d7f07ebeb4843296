import ProviderSchema.Proofs.Attribute.MergeByPath

/-!
# Which list an attribute comes from

Apart from its description and what is below it, the attribute that a merge
has at a path is that of the first list that reaches the path
(`exists_first_of_findNames?_mergeAttributes`).  The list that the others are
merged into reaches all its own paths (`reaches_target`), so nothing else
decides about them.

A list may be merged attribute by attribute instead of as a whole
(`mergeAttributes_append_singletons`), even if names are repeated in it.
-/

namespace ProviderSchema.Attribute

/-- The first contribution at a path is that of the first list that reaches
it. -/
theorem head?_contributions (merged : List Attribute) (lists : List (List Attribute))
    (path : List String) :
    (contributions merged lists path).head? =
      (lists.find? fun source => Reaches merged source path).bind (findNames? path) := by
  unfold contributions
  induction lists with
  | nil => rfl
  | cons source rest ih =>
    by_cases hreaches : Reaches merged source path
    · obtain ⟨a, ha⟩ := Option.isSome_iff_exists.mp hreaches.1
      simp [hreaches, ha]
    · simpa [hreaches] using ih

section Merge

variable {target : List Attribute} {sources : List (List Attribute)}

/-- An attribute of a merge has the variant and the computability that it has
in the first list that reaches it. -/
theorem exists_first_of_findNames?_mergeAttributes
    (h : ∀ source ∈ target :: sources, UniqueNames source) {path : List String} {a : Attribute}
    (ha : findNames? path (mergeAttributes target sources) = some a) :
    ∃ source first, (target :: sources).find?
        (fun l => Reaches (mergeAttributes target sources) l path) = some source ∧
      findNames? path source = some first ∧ a.variant = first.variant ∧
        a.traits.computability = first.traits.computability := by
  have hhead := head?_contributions (mergeAttributes target sources) (target :: sources) path
  rw [findNames?_mergeAttributes h] at ha
  cases hcontributions :
      contributions (mergeAttributes target sources) (target :: sources) path with
  | nil =>
    rw [hcontributions] at ha
    cases ha
  | cons first later =>
    rw [hcontributions] at ha hhead
    cases ha
    obtain ⟨source, hsource, hfirst⟩ := Option.bind_eq_some_iff.mp hhead.symm
    have hsettled := settled_foldl_merge first later
    exact ⟨source, first, hsource, hfirst, hsettled.variant, hsettled.computability⟩

/-- What other lists are merged into keeps its variant at a path that it
reaches. -/
theorem variantAt?_mergeAttributes (h : ∀ source ∈ target :: sources, UniqueNames source)
    {path : List String} (hreaches : Reaches (mergeAttributes target sources) target path) :
    variantAt? path (mergeAttributes target sources) = variantAt? path target := by
  have hsome := (isSome_findNames?_mergeAttributes h path).mpr
    ⟨target, List.mem_cons_self, hreaches⟩
  obtain ⟨a, ha⟩ := Option.isSome_iff_exists.mp hsome
  obtain ⟨source, first, hsource, hfirst, hvariant, -⟩ :=
    exists_first_of_findNames?_mergeAttributes h ha
  rw [List.find?_cons_of_pos (by simpa using hreaches)] at hsource
  cases hsource
  rw [variantAt?, variantAt?, ha, hfirst, Option.map_some, Option.map_some, hvariant]

/-- On the way to its own attributes, what other lists are merged into has the
variants of the merge. -/
theorem aligned_target (h : ∀ source ∈ target :: sources, UniqueNames source)
    {path : List String} (hpath : (childrenAt? path target).isSome) :
    Aligned (mergeAttributes target sources) target path := by
  induction path using List.reverseRecOn with
  | nil => exact aligned_nil _ _
  | append_singleton path name ih =>
    rw [childrenAt?_append_singleton, Option.isSome_bind, Option.any_eq_true_iff_get] at hpath
    obtain ⟨hfound, -⟩ := hpath
    have habove : Aligned (mergeAttributes target sources) target path := by
      refine ih ?_
      rw [findNames?_append_singleton] at hfound
      exact Option.isSome_of_isSome_bind hfound
    rw [aligned_append_singleton]
    refine ⟨habove, (variantAt?_mergeAttributes h ?_).symm⟩
    exact (reaches_append_singleton _ _ _ _).mpr ⟨hfound, habove⟩

/-- What other lists are merged into reaches all its attributes. -/
theorem reaches_target (h : ∀ source ∈ target :: sources, UniqueNames source)
    {path : List String} (hpath : (findNames? path target).isSome) :
    Reaches (mergeAttributes target sources) target path := by
  induction path using List.reverseRecOn with
  | nil => simp [findNames?] at hpath
  | append_singleton path name _ =>
    refine (reaches_append_singleton _ _ _ _).mpr ⟨hpath, aligned_target h ?_⟩
    rw [findNames?_append_singleton] at hpath
    exact Option.isSome_of_isSome_bind hpath

/-! ## One attribute after the other -/

theorem mergeAll_eq_foldl_singletons (target source : List Attribute) :
    mergeAll target source = (source.map fun a => [a]).foldl mergeAll target := by
  induction source generalizing target with
  | nil => rw [mergeAll]; rfl
  | cons a rest ih =>
    rw [mergeAll, List.map_cons, List.foldl_cons, mergeAll, mergeAll, ih]

/-- The last list may be merged attribute by attribute. -/
theorem mergeAttributes_append_singletons (target : List Attribute)
    (sources : List (List Attribute)) (last : List Attribute) :
    mergeAttributes target (sources ++ [last]) =
      mergeAttributes target (sources ++ last.map fun a => [a]) := by
  unfold mergeAttributes
  rw [List.foldl_append, List.foldl_append, List.foldl_cons, List.foldl_nil,
    mergeAll_eq_foldl_singletons]

end Merge

end ProviderSchema.Attribute
