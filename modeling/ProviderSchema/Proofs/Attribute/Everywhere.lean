import ProviderSchema.Proofs.Attribute.UpdateOrder

/-!
# What holds everywhere in a tree

`Attribute.Each P` says that `P` holds of an attribute and of every attribute
below it.  What happens to trees keeps it if it keeps `P` of one attribute:
merges (`Each.merge`), which fill an attribute from another one of the same
variant, and changes of the traits at a path (`Each.updateTraits`).  Both put
other nested attributes in the place of those there are, so `P` must not
depend on them (`IgnoresChildren`).
-/

namespace ProviderSchema.Attribute

/-- The attribute and all attributes below it satisfy `P`. -/
inductive Each (P : Attribute → Prop) : Attribute → Prop where
  | mk {a : Attribute} (own : P a) (below : ∀ l, a.children? = some l → ∀ c ∈ l, c.Each P) :
      Each P a

/-- Other nested attributes are as good as those there are. -/
def IgnoresChildren (P : Attribute → Prop) : Prop :=
  ∀ a children, P a → P (a.withChildren children)

variable {P : Attribute → Prop}

namespace Each

theorem own {a : Attribute} (h : a.Each P) : P a := by
  obtain ⟨hown, -⟩ := h
  exact hown

theorem children {a : Attribute} (h : a.Each P) {l : List Attribute} (hl : a.children? = some l) :
    ∀ c ∈ l, c.Each P := by
  obtain ⟨-, hbelow⟩ := h
  exact hbelow l hl

/-! ## Merges -/

theorem merge (hP : ∀ a s : Attribute, a.variant = s.variant → P a → P s → P (a.merge s))
    {target source : Attribute} (htarget : target.Each P) (hsource : source.Each P) :
    (target.merge source).Each P := by
  induction source using inductionOnChildren generalizing target with
  | step source ih =>
    by_cases hvariant : target.variant = source.variant
    · refine ⟨hP target source hvariant htarget.own hsource.own, ?_⟩
      rw [children?_merge hvariant]
      refine forall_merge (fun l => htarget.children) (fun l => hsource.children) ?_
      intro l l' _ hl' hbelow hbelow'
      rw [mergeAll_eq_mergeByKey]
      exact forall_mem_mergeByKey (fun a s hs ha hs' => ih l' hl' s hs ha hs') hbelow hbelow'
    · rw [merge_of_variant_ne hvariant]
      exact htarget

theorem mergeAttributes
    (hP : ∀ a s : Attribute, a.variant = s.variant → P a → P s → P (a.merge s))
    {target : List Attribute} {sources : List (List Attribute)} (htarget : ∀ a ∈ target, a.Each P)
    (hsources : ∀ source ∈ sources, ∀ s ∈ source, s.Each P) :
    ∀ a ∈ mergeAttributes target sources, a.Each P := by
  rw [mergeAttributes_eq_foldl]
  induction sources generalizing target with
  | nil => exact htarget
  | cons source rest ih =>
    rw [List.forall_mem_cons] at hsources
    have hmerged : ∀ a ∈ mergeByKey name Attribute.merge target source, a.Each P :=
      forall_mem_mergeByKey (fun _ _ _ => merge hP) htarget hsources.1
    exact ih hmerged hsources.2

/-! ## Changes of traits -/

theorem mapTraits {f : Traits → Traits} (hf : ∀ a : Attribute, P a → P (a.mapTraits f))
    {a : Attribute} (h : a.Each P) : (a.mapTraits f).Each P := by
  refine ⟨hf a h.own, ?_⟩
  rw [children?_mapTraits]
  exact fun _ => h.children

theorem mapChildren (hP : IgnoresChildren P) {f : List Attribute → List Attribute}
    (hf : ∀ l, (∀ c ∈ l, c.Each P) → ∀ c ∈ f l, c.Each P) {a : Attribute} (h : a.Each P) :
    (a.mapChildren f).Each P := by
  unfold Attribute.mapChildren
  cases hchildren : a.children? with
  | none => exact h
  | some children =>
    refine ⟨hP a _ h.own, ?_⟩
    rw [children?_withChildren hchildren]
    rintro l ⟨⟩
    exact hf children (h.children hchildren)

theorem replaceFirst {f : Attribute → Attribute} (hf : ∀ a, a.Each P → (f a).Each P)
    (name : String) {attributes : List Attribute} (h : ∀ a ∈ attributes, a.Each P) :
    ∀ a ∈ replaceFirst name f attributes, a.Each P := by
  induction attributes with
  | nil => exact h
  | cons a rest ih =>
    rw [List.forall_mem_cons] at h
    rw [Attribute.replaceFirst]
    split
    · exact List.forall_mem_cons.mpr ⟨hf a h.1, h.2⟩
    · exact List.forall_mem_cons.mpr ⟨h.1, ih h.2⟩

theorem within (hP : IgnoresChildren P) {f : Traits → Traits}
    (hf : ∀ a : Attribute, P a → P (a.mapTraits f)) (path : List String) {a : Attribute}
    (h : a.Each P) : (within f path a).Each P := by
  induction path generalizing a with
  | nil => exact h.mapTraits hf
  | cons name path ih => exact h.mapChildren hP fun _ => replaceFirst (fun _ => ih) name

theorem updateTraits (hP : IgnoresChildren P) {f : Traits → Traits}
    (hf : ∀ a : Attribute, P a → P (a.mapTraits f)) (path : List String)
    {attributes : List Attribute} (h : ∀ a ∈ attributes, a.Each P) :
    ∀ a ∈ updateTraits f path attributes, a.Each P := by
  cases path with
  | nil => exact h
  | cons name path => exact replaceFirst (fun _ => within hP hf path) name h

end Each

/-! ## Deciding -/

mutual

/-- Checks an attribute and all attributes below it. -/
def checkEach (P : Attribute → Prop) [DecidablePred P] : Attribute → Bool
  | .scalar name traits shape => P (.scalar name traits shape)
  | .collection name traits kind element => P (.collection name traits kind element)
  | .nested name traits kind attributes =>
    P (.nested name traits kind attributes) && checkEachOf P attributes
  | .single name traits attributes => P (.single name traits attributes) && checkEachOf P attributes

/-- Checks attributes and all attributes below them. -/
def checkEachOf (P : Attribute → Prop) [DecidablePred P] : List Attribute → Bool
  | [] => true
  | a :: rest => a.checkEach P && checkEachOf P rest

end

mutual

theorem checkEach_iff [DecidablePred P] (a : Attribute) : a.checkEach P = true ↔ a.Each P := by
  cases a with
  | scalar name traits shape =>
    rw [checkEach, decide_eq_true_eq]
    exact ⟨fun h => ⟨h, fun l hl => by cases hl⟩, Each.own⟩
  | collection name traits kind element =>
    rw [checkEach, decide_eq_true_eq]
    exact ⟨fun h => ⟨h, fun l hl => by cases hl⟩, Each.own⟩
  | nested name traits kind attributes =>
    rw [checkEach, Bool.and_eq_true, decide_eq_true_eq, checkEachOf_iff attributes]
    exact ⟨fun h => ⟨h.1, fun l hl => by cases hl; exact h.2⟩, fun h => ⟨h.own, h.children rfl⟩⟩
  | single name traits attributes =>
    rw [checkEach, Bool.and_eq_true, decide_eq_true_eq, checkEachOf_iff attributes]
    exact ⟨fun h => ⟨h.1, fun l hl => by cases hl; exact h.2⟩, fun h => ⟨h.own, h.children rfl⟩⟩

theorem checkEachOf_iff [DecidablePred P] (attributes : List Attribute) :
    checkEachOf P attributes = true ↔ ∀ a ∈ attributes, a.Each P := by
  match attributes with
  | [] => simp [checkEachOf]
  | a :: rest =>
    rw [checkEachOf, Bool.and_eq_true, checkEach_iff a, checkEachOf_iff rest, List.forall_mem_cons]

end

instance [DecidablePred P] : DecidablePred (Each P) := fun a =>
  decidable_of_iff (a.checkEach P = true) (checkEach_iff a)

end ProviderSchema.Attribute
