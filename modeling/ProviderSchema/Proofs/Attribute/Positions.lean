import ProviderSchema.Proofs.Attribute.MapEach
import ProviderSchema.Proofs.Attribute.UpdateOrder

/-!
# Positions in a tree

Names may repeat, and equal attributes may stand side by side, so neither a
path nor the attribute itself says which attribute of a tree is meant.  A
position does: an index in the list, then an index in each list of nested
attributes on the way down.

There are four groups of lemmas.

* The position that names lead to.  `findNames?_eq_bind` and
  `updateNames?_eq_map` say that looking up and updating go to the same
  position.
* Different names lead to different positions (`position?_inj`), names or no
  names repeated.
* A change of traits at a position.  It changes the traits there and nowhere
  else (`traits_at?_modifyAt`), and all names lead where they led before
  (`position?_modifyAt`).
* Paths.  The names of two paths that are joined by a dot are those of the one
  and then those of the other (`pathNames_append`).
-/

namespace ProviderSchema.Attribute

/-- The attribute at a position below an attribute. -/
def below? : List Nat → Attribute → Option Attribute
  | [], a => some a
  | i :: position, a =>
    a.children?.bind fun children => children[i]?.bind (below? position)

/-- The attribute at a position. -/
def at? : List Nat → List Attribute → Option Attribute
  | [], _ => none
  | i :: position, attributes => attributes[i]?.bind (below? position)

/-- The attribute with `f` applied to the one at a position below it. -/
def modifyBelow (f : Attribute → Attribute) : List Nat → Attribute → Attribute
  | [], a => f a
  | i :: position, a => a.mapChildren fun children => children.modify i (modifyBelow f position)

/-- The attributes with `f` applied to the one at a position. -/
def modifyAt (f : Attribute → Attribute) : List Nat → List Attribute → List Attribute
  | [], attributes => attributes
  | i :: position, attributes => attributes.modify i (modifyBelow f position)

/-- The index of the first attribute of a name, and the position that `f` goes
on to from there. -/
def firstPosition? (name : String) (f : Attribute → Option (List Nat))
    (attributes : List Attribute) : Option (List Nat) :=
  (attributes.findIdx? (·.name = name)).bind fun i => (attributes[i]?.bind f).map (i :: ·)

/-- The position that names lead to below an attribute. -/
def positionBelow? : List String → Attribute → Option (List Nat)
  | [], _ => some []
  | name :: names, a => a.children?.bind (firstPosition? name (positionBelow? names))

/-- The position that names lead to, each of them to the first attribute that
has it. -/
def position? : List String → List Attribute → Option (List Nat)
  | [], _ => none
  | name :: names, attributes => firstPosition? name (positionBelow? names) attributes

/-! ## Where names lead -/

/-- A list has a first attribute of a name, or none at all. -/
theorem first_inversion (name : String) (attributes : List Attribute) :
    (∃ before a after, attributes = before ++ a :: after ∧ a.name = name ∧
        ∀ b ∈ before, b.name ≠ name) ∨
      ∀ a ∈ attributes, a.name ≠ name := by
  cases hfind : attributes.find? (·.name = name) with
  | none =>
    right
    simpa using hfind
  | some a =>
    left
    rw [List.find?_eq_some_iff_append] at hfind
    obtain ⟨hname, before, after, hattributes, hbefore⟩ := hfind
    exact ⟨before, a, after, hattributes, by simpa using hname, by simpa using hbefore⟩

section First

variable {name : String} {before after : List Attribute} {a : Attribute}

theorem firstPosition?_append (hname : a.name = name) (hbefore : ∀ b ∈ before, b.name ≠ name)
    (f : Attribute → Option (List Nat)) :
    firstPosition? name f (before ++ a :: after) = (f a).map (before.length :: ·) := by
  have hindex : (before ++ a :: after).findIdx? (·.name = name) = some before.length := by
    rw [List.findIdx?_eq_some_iff_getElem]
    refine ⟨by simp, by simp [hname], ?_⟩
    intro j hj
    rw [List.getElem_append_left hj]
    simpa using hbefore _ (List.getElem_mem hj)
  unfold firstPosition?
  rw [hindex]
  simp

theorem updateFirst?_append (hname : a.name = name) (hbefore : ∀ b ∈ before, b.name ≠ name)
    (f : Attribute → Option Attribute) :
    updateFirst? name f (before ++ a :: after) = (f a).map fun b => before ++ b :: after := by
  induction before with
  | nil => rw [List.nil_append, updateFirst?, if_pos hname]; rfl
  | cons b before ih =>
    rw [List.forall_mem_cons] at hbefore
    rw [List.cons_append, updateFirst?, if_neg hbefore.1, ih hbefore.2, Option.map_map]
    rfl

end First

theorem firstPosition?_of_forall_ne {name : String} {attributes : List Attribute}
    (h : ∀ a ∈ attributes, a.name ≠ name) (f : Attribute → Option (List Nat)) :
    firstPosition? name f attributes = none := by
  have hindex : attributes.findIdx? (·.name = name) = none := by simpa using h
  unfold firstPosition?
  rw [hindex, Option.bind_none]

/-- Names lead to a position with an index in the list. -/
theorem firstPosition?_eq_some {name : String} {f : Attribute → Option (List Nat)}
    {attributes : List Attribute} {position : List Nat}
    (h : firstPosition? name f attributes = some position) :
    ∃ i a below, attributes[i]? = some a ∧ a.name = name ∧ f a = some below ∧
      position = i :: below := by
  rcases first_inversion name attributes with ⟨before, a, after, rfl, hname, hbefore⟩ | hnone
  · rw [firstPosition?_append hname hbefore, Option.map_eq_some_iff] at h
    obtain ⟨below, hbelow, rfl⟩ := h
    exact ⟨before.length, a, below, by simp, hname, hbelow, rfl⟩
  · rw [firstPosition?_of_forall_ne hnone] at h
    cases h

theorem firstPosition?_ne_some_nil (name : String) (f : Attribute → Option (List Nat))
    (attributes : List Attribute) : firstPosition? name f attributes ≠ some [] := by
  intro h
  obtain ⟨i, a, below, -, -, -, hposition⟩ := firstPosition?_eq_some h
  cases hposition

theorem updateFirst?_of_forall_ne {name : String} {attributes : List Attribute}
    (h : ∀ a ∈ attributes, a.name ≠ name) (f : Attribute → Option Attribute) :
    updateFirst? name f attributes = none := by
  induction attributes with
  | nil => rfl
  | cons a rest ih =>
    rw [List.forall_mem_cons] at h
    rw [updateFirst?, if_neg h.1, ih h.2, Option.map_none]

/-- What is looked up below the first attribute of a name is at the position
there, if that is so below every attribute. -/
theorem find?_bind_eq {f : Attribute → Option Attribute} {g : Attribute → Option (List Nat)}
    (h : ∀ a, f a = (g a).bind (below? · a)) (name : String) (attributes : List Attribute) :
    (attributes.find? (·.name = name)).bind f =
      (firstPosition? name g attributes).bind (at? · attributes) := by
  rcases first_inversion name attributes with ⟨before, a, after, rfl, hname, hbefore⟩ | hnone
  · have hfind : (before ++ a :: after).find? (·.name = name) = some a := by
      rw [List.find?_eq_some_iff_append]
      exact ⟨by simpa using hname, before, after, rfl, by simpa using hbefore⟩
    rw [hfind, Option.bind_some, h, firstPosition?_append hname hbefore]
    cases g a with
    | none => rfl
    | some position => simp [at?]
  · have hfind : attributes.find? (·.name = name) = none := by simpa using hnone
    rw [hfind, firstPosition?_of_forall_ne hnone]
    rfl

/-- What is updated below the first attribute of a name is at the position
there, if that is so below every attribute. -/
theorem updateFirst?_eq_map {f : Attribute → Option Attribute}
    {g : Attribute → Option (List Nat)} {change : Attribute → Attribute}
    (h : ∀ a, f a = (g a).map (modifyBelow change · a)) (name : String)
    (attributes : List Attribute) :
    updateFirst? name f attributes =
      (firstPosition? name g attributes).map (modifyAt change · attributes) := by
  rcases first_inversion name attributes with ⟨before, a, after, rfl, hname, hbefore⟩ | hnone
  · rw [updateFirst?_append hname hbefore, h, firstPosition?_append hname hbefore]
    cases g a with
    | none => rfl
    | some position => simp [modifyAt, List.modify_eq_take_drop]
  · rw [updateFirst?_of_forall_ne hnone, firstPosition?_of_forall_ne hnone]
    rfl

/-! ### Looking up -/

/-- The attribute that names lead to below an attribute. -/
def findBelow? : List String → Attribute → Option Attribute
  | [], a => some a
  | name :: names, a => a.children?.bind (findNames? (name :: names))

theorem findNames?_cons (name : String) (names : List String) (attributes : List Attribute) :
    findNames? (name :: names) attributes =
      (attributes.find? (·.name = name)).bind (findBelow? names) := by
  cases names with
  | nil =>
    rw [findNames?]
    cases attributes.find? (·.name = name) <;> rfl
  | cons second rest => exact findNames?_cons_cons name second rest attributes

theorem findBelow?_eq_bind (names : List String) (a : Attribute) :
    findBelow? names a = (positionBelow? names a).bind (below? · a) := by
  induction names generalizing a with
  | nil => rfl
  | cons name names ih =>
    rw [findBelow?, positionBelow?]
    cases hchildren : a.children? with
    | none => rfl
    | some children =>
      rw [Option.bind_some, Option.bind_some, findNames?_cons, find?_bind_eq ih]
      cases hposition : firstPosition? name (positionBelow? names) children with
      | none => rfl
      | some position =>
        cases position with
        | nil => exact absurd hposition (firstPosition?_ne_some_nil _ _ _)
        | cons i position => simp [at?, below?, hchildren]

/-- Looking up goes to the position that the names lead to. -/
theorem findNames?_eq_bind (names : List String) (attributes : List Attribute) :
    findNames? names attributes = (position? names attributes).bind (at? · attributes) := by
  cases names with
  | nil => rfl
  | cons name names =>
    rw [findNames?_cons, position?]
    exact find?_bind_eq (findBelow?_eq_bind names) name attributes

/-! ### Updating -/

/-- The attribute with `f` applied to the one that names lead to below it. -/
def updateBelow? (f : Attribute → Attribute) : List String → Attribute → Option Attribute
  | [], a => some (f a)
  | name :: names, a =>
    a.children?.bind fun children =>
      (updateNames? f (name :: names) children).map fun updated => a.withChildren updated

theorem updateNames?_cons (f : Attribute → Attribute) (name : String) (names : List String)
    (attributes : List Attribute) :
    updateNames? f (name :: names) attributes =
      updateFirst? name (updateBelow? f names) attributes := by
  cases names with
  | nil => rfl
  | cons second rest =>
    rw [updateNames?]
    · congr 1
      funext a
      rw [updateBelow?]
      cases a.children? <;> rfl
    · simp

theorem updateBelow?_eq_map (f : Attribute → Attribute) (names : List String) (a : Attribute) :
    updateBelow? f names a = (positionBelow? names a).map (modifyBelow f · a) := by
  induction names generalizing a with
  | nil => rfl
  | cons name names ih =>
    rw [updateBelow?, positionBelow?]
    cases hchildren : a.children? with
    | none => rfl
    | some children =>
      rw [Option.bind_some, Option.bind_some, updateNames?_cons, updateFirst?_eq_map ih,
        Option.map_map]
      cases hposition : firstPosition? name (positionBelow? names) children with
      | none => rfl
      | some position =>
        cases position with
        | nil => exact absurd hposition (firstPosition?_ne_some_nil _ _ _)
        | cons i position => simp [modifyAt, modifyBelow, mapChildren, hchildren]

/-- Updating goes to the position that the names lead to. -/
theorem updateNames?_eq_map (f : Attribute → Attribute) (names : List String)
    (attributes : List Attribute) :
    updateNames? f names attributes =
      (position? names attributes).map (modifyAt f · attributes) := by
  cases names with
  | nil => rfl
  | cons name names =>
    rw [updateNames?_cons, position?]
    exact updateFirst?_eq_map (updateBelow?_eq_map f names) name attributes

/-! ## Names and positions -/

/-- Where the first attributes of two names are the same, so are the names and
what comes after them. -/
theorem firstPosition?_inj {name name' : String} {f g : Attribute → Option (List Nat)}
    {attributes : List Attribute} {position : List Nat}
    (h : firstPosition? name f attributes = some position)
    (h' : firstPosition? name' g attributes = some position) :
    name = name' ∧ ∃ a below, f a = some below ∧ g a = some below := by
  obtain ⟨i, a, below, ha, hname, hbelow, rfl⟩ := firstPosition?_eq_some h
  obtain ⟨i', a', below', ha', hname', hbelow', hposition⟩ := firstPosition?_eq_some h'
  obtain ⟨rfl, rfl⟩ := List.cons.inj hposition
  rw [ha, Option.some_inj] at ha'
  subst ha'
  exact ⟨hname.symm.trans hname', a, below, hbelow, hbelow'⟩

theorem positionBelow?_inj {names names' : List String} {a : Attribute} {position : List Nat}
    (h : positionBelow? names a = some position) (h' : positionBelow? names' a = some position) :
    names = names' := by
  induction names generalizing names' a position with
  | nil =>
    cases h
    cases names' with
    | nil => rfl
    | cons name' names' =>
      obtain ⟨children, -, hfirst⟩ := Option.bind_eq_some_iff.mp h'
      exact absurd hfirst (firstPosition?_ne_some_nil _ _ _)
  | cons name names ih =>
    obtain ⟨children, hchildren, hfirst⟩ := Option.bind_eq_some_iff.mp h
    cases names' with
    | nil =>
      cases h'
      exact absurd hfirst (firstPosition?_ne_some_nil _ _ _)
    | cons name' names' =>
      rw [positionBelow?, hchildren, Option.bind_some] at h'
      obtain ⟨rfl, b, below, hbelow, hbelow'⟩ := firstPosition?_inj hfirst h'
      rw [ih hbelow hbelow']

/-- Different names lead to different positions. -/
theorem position?_inj {names names' : List String} {attributes : List Attribute}
    {position : List Nat} (h : position? names attributes = some position)
    (h' : position? names' attributes = some position) : names = names' := by
  cases names with
  | nil => cases h
  | cons name names =>
    cases names' with
    | nil => cases h'
    | cons name' names' =>
      obtain ⟨rfl, a, below, hbelow, hbelow'⟩ := firstPosition?_inj h h'
      rw [positionBelow?_inj hbelow hbelow']

/-- Names lead to positions at which there is an attribute. -/
theorem exists_below?_of_positionBelow? {names : List String} {a : Attribute} {position : List Nat}
    (h : positionBelow? names a = some position) : ∃ b, below? position a = some b := by
  induction names generalizing a position with
  | nil =>
    cases h
    exact ⟨a, rfl⟩
  | cons name names ih =>
    obtain ⟨children, hchildren, hfirst⟩ := Option.bind_eq_some_iff.mp h
    obtain ⟨i, c, below, hc, -, hbelow, rfl⟩ := firstPosition?_eq_some hfirst
    obtain ⟨b, hb⟩ := ih hbelow
    exact ⟨b, by rw [below?, hchildren, Option.bind_some, hc, Option.bind_some, hb]⟩

theorem exists_at?_of_position? {names : List String} {attributes : List Attribute}
    {position : List Nat} (h : position? names attributes = some position) :
    ∃ a, at? position attributes = some a := by
  cases names with
  | nil => cases h
  | cons name names =>
    obtain ⟨i, c, below, hc, -, hbelow, rfl⟩ := firstPosition?_eq_some h
    obtain ⟨a, ha⟩ := exists_below?_of_positionBelow? hbelow
    exact ⟨a, by rw [at?, hc, Option.bind_some, ha]⟩

/-! ## Changes of traits -/

section Traits

variable (f : Traits → Traits)

theorem name_modifyBelow (position : List Nat) (a : Attribute) :
    (modifyBelow (mapTraits f) position a).name = a.name := by
  cases position with
  | nil => exact name_mapTraits f a
  | cons i position => exact name_mapChildren _ a

theorem children?_mapChildren (change : List Attribute → List Attribute) (a : Attribute) :
    (a.mapChildren change).children? = a.children?.map change := by
  cases a <;> rfl

theorem traits_mapChildren (change : List Attribute → List Attribute) (a : Attribute) :
    (a.mapChildren change).traits = a.traits := by
  cases a <;> rfl

theorem traits_below?_modifyBelow (position other : List Nat) (a : Attribute) :
    (below? other (modifyBelow (mapTraits f) position a)).map traits =
      (below? other a).map fun b => if other = position then f b.traits else b.traits := by
  induction position generalizing other a with
  | nil =>
    cases other with
    | nil => simp [below?, modifyBelow]
    | cons j other => simp [below?, modifyBelow]
  | cons i position ih =>
    cases other with
    | nil => simp [below?, modifyBelow, traits_mapChildren]
    | cons j other =>
      rw [below?, modifyBelow, children?_mapChildren, below?]
      cases a.children? with
      | none => rfl
      | some children =>
        rw [Option.map_some, Option.bind_some, Option.bind_some, List.getElem?_modify]
        cases children[j]? with
        | none => rfl
        | some c =>
          by_cases hij : i = j
          · simp [hij, ih]
          · simp [hij, Ne.symm hij]

/-- The traits at the position are changed, and those everywhere else are as
they were. -/
theorem traits_at?_modifyAt (position other : List Nat) (attributes : List Attribute) :
    (at? other (modifyAt (mapTraits f) position attributes)).map traits =
      (at? other attributes).map fun a => if other = position then f a.traits else a.traits := by
  cases other with
  | nil => rfl
  | cons j other =>
    cases position with
    | nil => simp [modifyAt]
    | cons i position =>
      rw [at?, modifyAt, at?, List.getElem?_modify]
      cases attributes[j]? with
      | none => rfl
      | some a =>
        by_cases hij : i = j
        · simp [hij, traits_below?_modifyBelow]
        · simp [hij, Ne.symm hij]

/-- What a change of one attribute does not change is not changed in a list. -/
theorem map_modify {β : Type} {g : Attribute → β} {change : Attribute → Attribute}
    (h : ∀ a, g (change a) = g a) (i : Nat) (attributes : List Attribute) :
    (attributes.modify i change).map g = attributes.map g := by
  apply List.ext_getElem?
  intro j
  rw [List.getElem?_map, List.getElem?_map, List.getElem?_modify]
  cases attributes[j]? with
  | none => rfl
  | some a => by_cases hij : i = j <;> simp [hij, h]

/-- A change of an attribute that keeps its name, and the position that is
found below it, keeps the position that is found in the list. -/
theorem firstPosition?_modify {name : String} {g : Attribute → Option (List Nat)}
    {change : Attribute → Attribute} (hname : ∀ a, (change a).name = a.name)
    (hg : ∀ a, g (change a) = g a) (i : Nat) (attributes : List Attribute) :
    firstPosition? name g (attributes.modify i change) = firstPosition? name g attributes := by
  -- The position is made of the names of the list and of what `g` yields.
  have hsame (attributes : List Attribute) : firstPosition? name g attributes =
      ((attributes.map Attribute.name).findIdx? (· = name)).bind fun i =>
        ((attributes.map g)[i]?.bind id).map (i :: ·) := by
    unfold firstPosition?
    rw [List.findIdx?_map]
    simp [Function.comp_def, Option.bind_map]
  rw [hsame, hsame, map_modify hname, map_modify hg]

theorem positionBelow?_modifyBelow (names : List String) (position : List Nat) (a : Attribute) :
    positionBelow? names (modifyBelow (mapTraits f) position a) = positionBelow? names a := by
  induction names generalizing position a with
  | nil => rfl
  | cons name names ih =>
    cases position with
    | nil => rw [modifyBelow, positionBelow?, children?_mapTraits, positionBelow?]
    | cons i position =>
      rw [modifyBelow, positionBelow?, children?_mapChildren, positionBelow?]
      cases a.children? with
      | none => rfl
      | some children =>
        exact firstPosition?_modify (name_modifyBelow f position) (ih position) i children

/-- Names lead where they led before. -/
theorem position?_modifyAt (names : List String) (position : List Nat)
    (attributes : List Attribute) :
    position? names (modifyAt (mapTraits f) position attributes) = position? names attributes := by
  cases names with
  | nil => rfl
  | cons name names =>
    cases position with
    | nil => rfl
    | cons i position =>
      exact firstPosition?_modify (name_modifyBelow f position)
        (positionBelow?_modifyBelow f names position) i attributes

end Traits

/-! ## Paths -/

theorem pathNamesFrom_append (current before rest : List Char) :
    pathNamesFrom current (before ++ '.' :: rest) =
      pathNamesFrom current before ++ pathNamesFrom [] rest := by
  induction before generalizing current with
  | nil => simp [pathNamesFrom]
  | cons c before ih =>
    by_cases hc : c = '.'
    · subst hc
      simp [pathNamesFrom, ih]
    · rw [List.cons_append, pathNamesFrom, pathNamesFrom, ih]
      · exact hc
      · exact hc

/-- A path that is made of two has the names of both. -/
theorem pathNames_append (path path' : String) :
    pathNames (path ++ "." ++ path') = pathNames path ++ pathNames path' := by
  unfold pathNames
  rw [← pathNamesFrom_append]
  simp

theorem findNames?_append {names names' : List String} (hnames : names ≠ []) (hnames' : names' ≠ [])
    (attributes : List Attribute) :
    findNames? (names ++ names') attributes =
      (findNames? names attributes).bind fun a => a.children?.bind (findNames? names') := by
  induction names generalizing attributes with
  | nil => exact absurd rfl hnames
  | cons name names ih =>
    rw [List.cons_append, findNames?_cons, findNames?_cons, Option.bind_assoc]
    congr 1
    funext a
    cases names with
    | nil =>
      cases names' with
      | nil => exact absurd rfl hnames'
      | cons name' names' => rfl
    | cons second rest =>
      rw [List.cons_append, findBelow?, findBelow?, Option.bind_assoc]
      congr 1
      funext children
      exact ih (List.cons_ne_nil second rest) children

/-- What is found at a path that is made of two is found at the second one,
below what is found at the first one. -/
theorem find?_append (attributes : List Attribute) (path path' : String) :
    find? attributes (path ++ "." ++ path') =
      (find? attributes path).bind fun a =>
        a.children?.bind fun children => find? children path' := by
  unfold find?
  rw [pathNames_append]
  exact findNames?_append (pathNamesFrom_ne_nil _ _) (pathNamesFrom_ne_nil _ _) attributes

end ProviderSchema.Attribute
