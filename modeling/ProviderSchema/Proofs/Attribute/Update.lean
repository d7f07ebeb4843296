import ProviderSchema.Attribute.Lookup
import ProviderSchema.Proofs.Attribute.NameLists

/-!
# Updates at a path

`updateFirst?` replaces one attribute of a list and leaves the others as they
are (`updateFirst?_eq_some`).  An update that keeps the name of the attribute
it changes therefore keeps the names of the list, at the path as well as on
the way to it.
-/

namespace ProviderSchema.Attribute

/-- The first attribute of the name is replaced. -/
theorem updateFirst?_eq_some {name : String} {f : Attribute → Option Attribute}
    {attributes updated : List Attribute} (h : updateFirst? name f attributes = some updated) :
    ∃ before a a' after, attributes = before ++ a :: after ∧ a.name = name ∧
      (∀ b ∈ before, b.name ≠ name) ∧ f a = some a' ∧ updated = before ++ a' :: after := by
  induction attributes generalizing updated with
  | nil => cases h
  | cons a rest ih =>
    rw [updateFirst?] at h
    split at h
    · rename_i hname
      obtain ⟨a', ha', rfl⟩ := Option.map_eq_some_iff.mp h
      exact ⟨[], a, a', rest, rfl, hname, by simp, ha', rfl⟩
    · rename_i hname
      obtain ⟨later, hlater, rfl⟩ := Option.map_eq_some_iff.mp h
      obtain ⟨before, b, b', after, rfl, hb, hbefore, hb', rfl⟩ := ih hlater
      refine ⟨a :: before, b, b', after, rfl, hb, ?_, hb', rfl⟩
      rw [List.forall_mem_cons]
      exact ⟨hname, hbefore⟩

@[simp] theorem name_mapTraits (f : Traits → Traits) (a : Attribute) :
    (a.mapTraits f).name = a.name := by
  cases a <;> rfl

@[simp] theorem name_withChildren (children : List Attribute) (a : Attribute) :
    (a.withChildren children).name = a.name := by
  cases a <;> rfl

@[simp] theorem traits_mapTraits (f : Traits → Traits) (a : Attribute) :
    (a.mapTraits f).traits = f a.traits := by
  cases a <;> rfl

@[simp] theorem children?_mapTraits (f : Traits → Traits) (a : Attribute) :
    (a.mapTraits f).children? = a.children? := by
  cases a <;> rfl

@[simp] theorem traits_withChildren (children : List Attribute) (a : Attribute) :
    (a.withChildren children).traits = a.traits := by
  cases a <;> rfl

theorem children?_withChildren {a : Attribute} {children : List Attribute}
    (h : a.children? = some children) (others : List Attribute) :
    (a.withChildren others).children? = some others := by
  cases a <;> first | rfl | cases h

/-! ## Names -/

section Names

variable {P : List String → Prop}

/-- If the attribute that is replaced keeps its name, and below it the names
are in order, they are in order as before. -/
theorem keepsNames_updateFirst? {name : String} {f : Attribute → Option Attribute}
    (hname : ∀ a a', f a = some a' → a'.name = a.name)
    (hbelow : ∀ a a', a.NamesBelow P → f a = some a' → a'.NamesBelow P)
    {attributes updated : List Attribute} (h : updateFirst? name f attributes = some updated) :
    updated.map Attribute.name = attributes.map Attribute.name ∧
      ((∀ a ∈ attributes, a.NamesBelow P) → ∀ a ∈ updated, a.NamesBelow P) := by
  obtain ⟨before, a, a', after, rfl, -, -, ha', rfl⟩ := updateFirst?_eq_some h
  refine ⟨by simp [hname a a' ha'], ?_⟩
  intro hall
  rw [List.forall_mem_append, List.forall_mem_cons] at hall ⊢
  exact ⟨hall.1, hbelow a a' hall.2.1 ha', hall.2.2⟩

variable {f : Attribute → Attribute}

theorem keepsNames_updateNames? (hname : ∀ a, (f a).name = a.name)
    (hbelow : ∀ a, a.NamesBelow P → (f a).NamesBelow P) {path : List String}
    {attributes updated : List Attribute} (h : updateNames? f path attributes = some updated) :
    updated.map Attribute.name = attributes.map Attribute.name ∧
      ((∀ a ∈ attributes, a.NamesBelow P) → ∀ a ∈ updated, a.NamesBelow P) := by
  induction path generalizing attributes updated with
  | nil => cases h
  | cons first rest ih =>
    cases rest with
    | nil =>
      rw [updateNames?] at h
      refine keepsNames_updateFirst? ?_ ?_ h
      · rintro a _ ⟨⟩
        exact hname a
      · rintro a _ ha ⟨⟩
        exact hbelow a ha
    | cons second rest =>
      rw [updateNames?] at h
      · refine keepsNames_updateFirst? ?_ ?_ h
        · intro a a' ha'
          split at ha'
          · obtain ⟨cs, -, rfl⟩ := Option.map_eq_some_iff.mp ha'
            exact name_withChildren cs a
          · cases ha'
        · intro a a' ha ha'
          split at ha'
          · rename_i children hchildren
            obtain ⟨cs, hcs, rfl⟩ := Option.map_eq_some_iff.mp ha'
            obtain ⟨hnames, heach⟩ := ih hcs
            have hbefore := (namesBelow_iff.mp ha).2 children hchildren
            refine ha.withChildren ⟨?_, heach hbefore.each⟩
            rw [hnames]
            exact hbefore.names
          · cases ha'
      · simp

end Names

/-! ## What an update leaves as it is -/

section Kept

variable {β : Type} {g : Attribute → β}

theorem findNames?_cons_cons (first second : String) (rest : List String)
    (attributes : List Attribute) :
    findNames? (first :: second :: rest) attributes =
      (attributes.find? (·.name = first)).bind fun a =>
        a.children?.bind (findNames? (second :: rest)) := by
  rw [findNames?]
  · cases attributes.find? (·.name = first) <;> rfl
  · simp

/-- The attribute that is found under a name is replaced, or it is another
one. -/
theorem find?_updateFirst? {name : String} {f : Attribute → Option Attribute}
    (hname : ∀ a a', f a = some a' → a'.name = a.name) {attributes updated : List Attribute}
    (h : updateFirst? name f attributes = some updated) (other : String) :
    updated.find? (·.name = other) =
      if other = name then (attributes.find? (·.name = name)).bind f
      else attributes.find? (·.name = other) := by
  obtain ⟨before, a, a', after, rfl, ha, hbefore, ha', rfl⟩ := updateFirst?_eq_some h
  have hbefore' : before.find? (·.name = name) = none := by simpa using hbefore
  have ha'name := (hname a a' ha').trans ha
  split
  · rename_i hother
    subst hother
    simp [hbefore', ha, ha'name, ha']
  · rename_i hother
    simp [ha, ha'name, Ne.symm hother]

/-- What is not changed of an attribute, nor of those below it, is not changed
anywhere. -/
theorem map_findNames?_updateFirst? {name : String} {f : Attribute → Option Attribute}
    (hf : ∀ a a', f a = some a' → a'.name = a.name ∧ g a' = g a ∧
      ∀ below, (a'.children?.bind (findNames? below)).map g =
        (a.children?.bind (findNames? below)).map g)
    {attributes updated : List Attribute} (h : updateFirst? name f attributes = some updated)
    (path : List String) :
    (findNames? path updated).map g = (findNames? path attributes).map g := by
  obtain ⟨before, a, a', _, hattributes, ha, hbefore, ha', -⟩ := updateFirst?_eq_some h
  obtain ⟨hname, hg, hbelow⟩ := hf a a' ha'
  have hfound : attributes.find? (·.name = name) = some a := by
    have hbefore' : before.find? (·.name = name) = none := by simpa using hbefore
    rw [hattributes, List.find?_append, hbefore', Option.none_or,
      List.find?_cons_of_pos (by simpa using ha)]
  have hfind := find?_updateFirst? (fun a a' ha => (hf a a' ha).1) h
  rcases path with _ | ⟨first, _ | ⟨second, rest⟩⟩
  · rfl
  · rw [findNames?, findNames?, hfind]
    split
    · rename_i hfirst
      rw [hfirst, hfound, Option.bind_some, ha', Option.map_some, Option.map_some, hg]
    · rfl
  · rw [findNames?_cons_cons, findNames?_cons_cons, hfind]
    split
    · rename_i hfirst
      rw [hfirst, hfound, Option.bind_some, ha']
      exact hbelow (second :: rest)
    · rfl

/-- What an update does not change of the attribute at the path, nor of those
on the way to it, is not changed anywhere. -/
theorem map_findNames?_updateNames? {f : Attribute → Attribute}
    (hname : ∀ a, (f a).name = a.name) (hchildren : ∀ a, (f a).children? = a.children?)
    (hf : ∀ a, g (f a) = g a) (hg : ∀ a children, g (a.withChildren children) = g a)
    {path : List String} {attributes updated : List Attribute}
    (h : updateNames? f path attributes = some updated) (other : List String) :
    (findNames? other updated).map g = (findNames? other attributes).map g := by
  induction path generalizing attributes updated other with
  | nil => cases h
  | cons first rest ih =>
    cases rest with
    | nil =>
      rw [updateNames?] at h
      refine map_findNames?_updateFirst? ?_ h other
      rintro a _ ⟨⟩
      refine ⟨hname a, hf a, fun below => ?_⟩
      rw [hchildren]
    | cons second rest =>
      rw [updateNames?] at h
      · refine map_findNames?_updateFirst? ?_ h other
        intro a a' ha'
        split at ha'
        · rename_i children hchild
          obtain ⟨cs, hcs, rfl⟩ := Option.map_eq_some_iff.mp ha'
          refine ⟨name_withChildren cs a, hg a cs, fun below => ?_⟩
          rw [children?_withChildren hchild, hchild]
          exact ih hcs below
        · cases ha'
      · simp

end Kept

end ProviderSchema.Attribute
