import ProviderSchema.Proofs.Attribute.Update

/-!
# Updates in any order

Updates that change the traits of attributes at different paths do not get in
each other's way, even if one path leads through the attribute at the other:
they can be made in any order (`updateTraits_comm`).

For that an update is written as a function of lists that leaves a list as it
is if there is nothing at the path.  `within` is what it does to the attribute
that the first name of the path leads to.
-/

namespace ProviderSchema.Attribute

/-! ## Replacing one attribute -/

/-- A list with `f` applied to the first attribute of a name. -/
def replaceFirst (name : String) (f : Attribute → Attribute) : List Attribute → List Attribute
  | [] => []
  | a :: rest => if a.name = name then f a :: rest else a :: replaceFirst name f rest

theorem getD_updateFirst? (name : String) (f : Attribute → Option Attribute)
    (attributes : List Attribute) :
    (updateFirst? name f attributes).getD attributes =
      replaceFirst name (fun a => (f a).getD a) attributes := by
  induction attributes with
  | nil => rfl
  | cons a rest ih =>
    rw [updateFirst?, replaceFirst]
    split
    · cases f a <;> rfl
    · rw [← ih]
      cases updateFirst? name f rest <;> rfl

/-- One attribute is replaced, or there is none of the name. -/
theorem replaceFirst_inversion (name : String) (f : Attribute → Attribute)
    (attributes : List Attribute) :
    (∃ before a after, attributes = before ++ a :: after ∧
        replaceFirst name f attributes = before ++ f a :: after) ∨
      replaceFirst name f attributes = attributes := by
  induction attributes with
  | nil => exact .inr rfl
  | cons a rest ih =>
    rw [replaceFirst]
    by_cases h : a.name = name
    · rw [if_pos h]
      exact .inl ⟨[], a, rest, rfl, rfl⟩
    · rw [if_neg h]
      rcases ih with ⟨before, b, after, rfl, hreplaced⟩ | hsame
      · refine .inl ⟨a :: before, b, after, rfl, ?_⟩
        rw [hreplaced, List.cons_append]
      · exact .inr (by rw [hsame])

theorem replaceFirst_of_forall_ne {name : String} {f : Attribute → Attribute}
    {attributes : List Attribute} (h : ∀ a ∈ attributes, a.name ≠ name) :
    replaceFirst name f attributes = attributes := by
  induction attributes with
  | nil => rfl
  | cons a rest ih =>
    rw [List.forall_mem_cons] at h
    rw [replaceFirst, if_neg h.1, ih h.2]

theorem replaceFirst_replaceFirst (name : String) (f : Attribute → Attribute)
    {g : Attribute → Attribute} (hg : ∀ a, (g a).name = a.name) (attributes : List Attribute) :
    replaceFirst name f (replaceFirst name g attributes) =
      replaceFirst name (fun a => f (g a)) attributes := by
  induction attributes with
  | nil => rfl
  | cons a rest ih =>
    by_cases h : a.name = name
    · simp [replaceFirst, h, hg]
    · simp [replaceFirst, h, ih]

theorem replaceFirst_comm_of_ne {name name' : String} (hne : name ≠ name')
    {f g : Attribute → Attribute} (hf : ∀ a, (f a).name = a.name) (hg : ∀ a, (g a).name = a.name)
    (attributes : List Attribute) :
    replaceFirst name f (replaceFirst name' g attributes) =
      replaceFirst name' g (replaceFirst name f attributes) := by
  induction attributes with
  | nil => rfl
  | cons a rest ih =>
    by_cases h : a.name = name
    · simp [replaceFirst, h, hf, hne]
    · by_cases h' : a.name = name'
      · simp [replaceFirst, h', hg, hne.symm]
      · simp [replaceFirst, h, h', ih]

/-- What can be done to an attribute in any order can be done to the first one
of a name in any order. -/
theorem replaceFirst_comm {name name' : String} {f g : Attribute → Attribute}
    (hf : ∀ a, (f a).name = a.name) (hg : ∀ a, (g a).name = a.name)
    (h : name = name' → ∀ a, f (g a) = g (f a)) (attributes : List Attribute) :
    replaceFirst name f (replaceFirst name' g attributes) =
      replaceFirst name' g (replaceFirst name f attributes) := by
  by_cases hname : name = name'
  · subst hname
    rw [replaceFirst_replaceFirst name f hg, replaceFirst_replaceFirst name g hf]
    simp only [h rfl]
  · exact replaceFirst_comm_of_ne hname hf hg attributes

/-! ## Below an attribute -/

/-- An attribute with `f` applied to its nested attributes. -/
def mapChildren (f : List Attribute → List Attribute) (a : Attribute) : Attribute :=
  match a.children? with
  | some children => a.withChildren (f children)
  | none => a

theorem name_mapChildren (f : List Attribute → List Attribute) (a : Attribute) :
    (a.mapChildren f).name = a.name := by
  cases a <;> rfl

theorem mapChildren_mapChildren (f g : List Attribute → List Attribute) (a : Attribute) :
    (a.mapChildren g).mapChildren f = a.mapChildren fun l => f (g l) := by
  cases a <;> rfl

theorem mapTraits_mapChildren (f : Traits → Traits) (g : List Attribute → List Attribute)
    (a : Attribute) : (a.mapChildren g).mapTraits f = (a.mapTraits f).mapChildren g := by
  cases a <;> rfl

/-- The attribute with the traits of the attribute changed to which a path
leads from it. -/
def within (f : Traits → Traits) : List String → Attribute → Attribute
  | [], a => a.mapTraits f
  | name :: path, a => a.mapChildren (replaceFirst name (within f path))

theorem name_within (f : Traits → Traits) (path : List String) (a : Attribute) :
    (within f path a).name = a.name := by
  cases path with
  | nil => exact name_mapTraits f a
  | cons name path => exact name_mapChildren _ a

theorem within_comm {path path' : List String} (hne : path ≠ path') (f g : Traits → Traits)
    (a : Attribute) :
    within f path (within g path' a) = within g path' (within f path a) := by
  induction path generalizing path' a with
  | nil =>
    cases path' with
    | nil => exact absurd rfl hne
    | cons name' path' => exact mapTraits_mapChildren f _ a
  | cons name path ih =>
    cases path' with
    | nil => exact (mapTraits_mapChildren g _ a).symm
    | cons name' path' =>
      rw [within, within, within, within, mapChildren_mapChildren, mapChildren_mapChildren]
      congr 1
      funext attributes
      refine replaceFirst_comm (name_within f path) (name_within g path') (fun hname b => ?_) _
      exact ih (fun hpath => hne (by rw [hname, hpath])) b

/-! ## Updates -/

/-- The attributes with the traits of the one at a path changed, if there is
one. -/
def updateTraits (f : Traits → Traits) : List String → List Attribute → List Attribute
  | [], attributes => attributes
  | name :: path, attributes => replaceFirst name (within f path) attributes

theorem getD_updateNames? (f : Traits → Traits) (path : List String)
    (attributes : List Attribute) :
    (updateNames? (mapTraits f) path attributes).getD attributes =
      updateTraits f path attributes := by
  induction path generalizing attributes with
  | nil => rfl
  | cons name path ih =>
    cases path with
    | nil =>
      rw [updateNames?, getD_updateFirst?]
      rfl
    | cons name' path =>
      rw [updateNames?, getD_updateFirst?, updateTraits]
      · congr 1
        funext a
        rw [within, mapChildren]
        cases hchildren : a.children? with
        | none => rfl
        | some children =>
          dsimp only
          have hupdated := ih children
          rw [updateTraits] at hupdated
          rw [← hupdated]
          cases updateNames? (mapTraits f) (name' :: path) children with
          | some updated => rfl
          | none =>
            -- Nothing is found below, so the attribute gets the children it has.
            change a = a.withChildren children
            cases a <;> cases hchildren <;> rfl
      · simp

/-- Updates at different paths can be made in any order. -/
theorem updateTraits_comm {path path' : List String} (hne : path ≠ path') (f g : Traits → Traits)
    (attributes : List Attribute) :
    updateTraits f path (updateTraits g path' attributes) =
      updateTraits g path' (updateTraits f path attributes) := by
  cases path with
  | nil => rfl
  | cons name path =>
    cases path' with
    | nil => rfl
    | cons name' path' =>
      refine replaceFirst_comm (name_within f path) (name_within g path') (fun hname a => ?_) _
      exact within_comm (fun hpath => hne (by rw [hname, hpath])) f g a

/-! ## Paths -/

theorem pathNamesFrom_ne_nil (current text : List Char) : pathNamesFrom current text ≠ [] := by
  induction text generalizing current with
  | nil => simp [pathNamesFrom]
  | cons c rest ih =>
    by_cases hc : c = '.'
    · subst hc
      simp [pathNamesFrom]
    · rw [pathNamesFrom]
      · exact ih _
      · exact hc

/-- The names of a path are the path, taken apart at its dots. -/
theorem intercalate_pathNamesFrom (current text : List Char) :
    List.intercalate ['.'] ((pathNamesFrom current text).map String.toList) =
      current.reverse ++ text := by
  induction text generalizing current with
  | nil => simp [pathNamesFrom]
  | cons c rest ih =>
    by_cases hc : c = '.'
    · subst hc
      have hrest := ih []
      rw [pathNamesFrom]
      cases hnames : pathNamesFrom [] rest with
      | nil => exact absurd hnames (pathNamesFrom_ne_nil [] rest)
      | cons name names =>
        rw [hnames] at hrest
        rw [List.map_cons, List.map_cons, List.intercalate_cons_cons, ← List.map_cons, hrest]
        simp
    · rw [pathNamesFrom, ih]
      · simp
      · exact hc

/-- Different paths have different names. -/
theorem pathNames_inj {path path' : String} : pathNames path = pathNames path' ↔ path = path' := by
  refine ⟨fun h => ?_, fun h => by rw [h]⟩
  have hpath := intercalate_pathNamesFrom [] path.toList
  have hpath' := intercalate_pathNamesFrom [] path'.toList
  unfold pathNames at h
  rw [h, hpath'] at hpath
  exact String.toList_inj.mp (by simpa using hpath.symm)

end ProviderSchema.Attribute
