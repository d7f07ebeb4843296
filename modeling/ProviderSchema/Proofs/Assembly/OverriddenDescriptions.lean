import ProviderSchema.Proofs.Assembly.OrderIndependence
import ProviderSchema.Proofs.Attribute.Positions

/-!
# Overridden descriptions

Overrides change descriptions only, and those of the addressed attributes only
(`redescribed_applyOverrides`).  The addressed attribute is the one to which
the path leads in the tree as it was: a path leads where it led before, however
many overrides have been made.  As different paths lead to different positions,
no override undoes another one.
-/

namespace ProviderSchema

namespace Attribute

/-- The attributes without their descriptions and those below them. -/
def undescribed (attributes : List Attribute) : List Attribute :=
  mapEachOf (fun t => { t with description := none }) id attributes

/-- The position to which a path leads. -/
def address? (attributes : List Attribute) (path : String) : Option (List Nat) :=
  position? (pathNames path) attributes

/-- The description at a position. -/
def descriptionAt? (position : List Nat) (attributes : List Attribute) : Option (Option String) :=
  (at? position attributes).map fun a => a.traits.description

/-- Looking up a path and updating the attribute at it go to one position. -/
structure Addressed (attributes : List Attribute) (path : String) : Prop where
  /-- Looking up yields the attribute at the position. -/
  found : find? attributes path = (address? attributes path).bind (at? · attributes)
  /-- Updating changes the attribute at the position, and nothing else. -/
  updated : ∀ f, update? attributes path f =
    (address? attributes path).map (modifyAt f · attributes)
  /-- There is an attribute at the position. -/
  present : ∀ position, address? attributes path = some position →
    ∃ a, at? position attributes = some a

theorem addressed (attributes : List Attribute) (path : String) : Addressed attributes path where
  found := findNames?_eq_bind (pathNames path) attributes
  updated f := updateNames?_eq_map f (pathNames path) attributes
  present _ := exists_at?_of_position?

/-- Different paths lead to different positions. -/
theorem address?_inj {attributes : List Attribute} {path path' : String} {position : List Nat}
    (h : address? attributes path = some position)
    (h' : address? attributes path' = some position) : path = path' :=
  pathNames_inj.mp (position?_inj h h')

/-! ## One description -/

section Described

variable (description : String) (position : List Nat) (attributes : List Attribute)

theorem describedAs_eq_mapTraits :
    describedAs description = mapTraits fun t => { t with description := some description } :=
  rfl

theorem address?_modifyAt_describedAs (path : String) :
    address? (modifyAt (describedAs description) position attributes) path =
      address? attributes path :=
  position?_modifyAt _ _ position attributes

theorem descriptionAt?_modifyAt (other : List Nat) :
    descriptionAt? other (modifyAt (describedAs description) position attributes) =
      (descriptionAt? other attributes).map fun old =>
        if other = position then some description else old := by
  unfold descriptionAt?
  have htraits := congrArg (Option.map Traits.description)
    (traits_at?_modifyAt (fun t => { t with description := some description }) position other
      attributes)
  rw [Option.map_map] at htraits
  rw [describedAs_eq_mapTraits, Option.map_map]
  refine htraits.trans ?_
  rw [Option.map_map]
  congr 1
  funext a
  simp only [Function.comp_apply]
  split <;> rfl

theorem mapEach_modifyBelow {f g : Traits → Traits} (hfg : ∀ t, f (g t) = f t) (a : Attribute) :
    (modifyBelow (mapTraits g) position a).mapEach f id = a.mapEach f id := by
  induction position generalizing a with
  | nil => cases a <;> simp [modifyBelow, mapTraits, mapEach, hfg]
  | cons i position ih =>
    cases a <;>
      simp [modifyBelow, mapChildren, children?, withChildren, mapEach, mapEachOf_eq_map,
        map_modify ih]

theorem undescribed_modifyAt :
    undescribed (modifyAt (describedAs description) position attributes) =
      undescribed attributes := by
  cases position with
  | nil => rfl
  | cons i position =>
    unfold undescribed
    rw [mapEachOf_eq_map, mapEachOf_eq_map, modifyAt, describedAs_eq_mapTraits]
    apply map_modify
    exact mapEach_modifyBelow position fun _ => rfl

end Described

end Attribute

open Attribute

/-! ## One override -/

namespace AttributeOverride

variable {o : AttributeOverride} {path : String} {attributes : List Attribute}

/-- An override describes the attribute at its path, or it does nothing. -/
theorem apply_cases (o : AttributeOverride) (path : String) (attributes : List Attribute) :
    (∃ description position, o.description = some description ∧
        address? attributes path = some position ∧
        o.apply path attributes = modifyAt (describedAs description) position attributes) ∨
      (o.description = none ∨ address? attributes path = none) ∧
        o.apply path attributes = attributes := by
  unfold apply
  cases o.description with
  | none => exact .inr ⟨.inl rfl, rfl⟩
  | some description =>
    dsimp only
    rw [(addressed attributes path).updated]
    cases address? attributes path with
    | none => exact .inr ⟨.inr rfl, rfl⟩
    | some position => exact .inl ⟨description, position, rfl, rfl, rfl⟩

theorem address?_apply (other : String) :
    address? (o.apply path attributes) other = address? attributes other := by
  rcases apply_cases o path attributes with ⟨description, position, -, -, happly⟩ | ⟨-, happly⟩
  · rw [happly, address?_modifyAt_describedAs]
  · rw [happly]

theorem undescribed_apply : undescribed (o.apply path attributes) = undescribed attributes := by
  rcases apply_cases o path attributes with ⟨description, position, -, -, happly⟩ | ⟨-, happly⟩
  · rw [happly, undescribed_modifyAt]
  · rw [happly]

/-- Where the path does not lead, descriptions are kept. -/
theorem descriptionAt?_apply_of_ne {position : List Nat}
    (h : o.description ≠ none → address? attributes path ≠ some position) :
    descriptionAt? position (o.apply path attributes) = descriptionAt? position attributes := by
  rcases apply_cases o path attributes with
    ⟨description, there, hdescription, hthere, happly⟩ | ⟨-, happly⟩
  · have hne : position ≠ there := by
      intro heq
      subst heq
      exact h (by simp [hdescription]) hthere
    rw [happly, descriptionAt?_modifyAt]
    simp [hne]
  · rw [happly]

/-- Where the path leads, there is the description of the override. -/
theorem descriptionAt?_apply {position : List Nat} {description : String}
    (hdescription : o.description = some description)
    (hposition : address? attributes path = some position) :
    descriptionAt? position (o.apply path attributes) = some (some description) := by
  rcases apply_cases o path attributes with ⟨_, _, hd, hp, happly⟩ | ⟨hnone, -⟩
  · rw [hdescription, Option.some_inj] at hd
    rw [hposition, Option.some_inj] at hp
    subst hd hp
    obtain ⟨a, ha⟩ := (addressed attributes path).present position hposition
    rw [happly, descriptionAt?_modifyAt]
    simp [descriptionAt?, ha]
  · simp [hdescription, hposition] at hnone

end AttributeOverride

/-! ## All overrides -/

section Overrides

variable {overrides : List (String × AttributeOverride)} {attributes : List Attribute}

theorem address?_applyOverrides (path : String) :
    address? (applyOverrides overrides attributes) path = address? attributes path := by
  unfold applyOverrides
  induction overrides generalizing attributes with
  | nil => rfl
  | cons entry rest ih => rw [List.foldl_cons, ih, AttributeOverride.address?_apply]

theorem undescribed_applyOverrides :
    undescribed (applyOverrides overrides attributes) = undescribed attributes := by
  unfold applyOverrides
  induction overrides generalizing attributes with
  | nil => rfl
  | cons entry rest ih => rw [List.foldl_cons, ih, AttributeOverride.undescribed_apply]

/-- Where no override leads, descriptions are kept. -/
theorem descriptionAt?_applyOverrides_of_ne {position : List Nat}
    (h : ∀ path o, (path, o) ∈ overrides → o.description ≠ none →
      address? attributes path ≠ some position) :
    descriptionAt? position (applyOverrides overrides attributes) =
      descriptionAt? position attributes := by
  unfold applyOverrides
  induction overrides generalizing attributes with
  | nil => rfl
  | cons entry rest ih =>
    rw [List.foldl_cons, ih]
    · exact AttributeOverride.descriptionAt?_apply_of_ne (h entry.1 entry.2 List.mem_cons_self)
    · intro path o hmem
      rw [AttributeOverride.address?_apply]
      exact h path o (List.mem_cons_of_mem _ hmem)

/-- Where an override leads, there is its description: those that are made
after it lead elsewhere. -/
theorem descriptionAt?_applyOverrides (hdistinct : (overrides.map (·.1)).Nodup) {path : String}
    {o : AttributeOverride} (hmem : (path, o) ∈ overrides) {description : String}
    (hdescription : o.description = some description) {position : List Nat}
    (hposition : address? attributes path = some position) :
    descriptionAt? position (applyOverrides overrides attributes) = some (some description) := by
  obtain ⟨before, after, rfl⟩ := List.append_of_mem hmem
  have hlater : ∀ path' o', (path', o') ∈ after → path' ≠ path := by
    intro path' o' hafter heq
    rw [List.map_append, List.map_cons, List.nodup_append] at hdistinct
    have hnotMem := (List.nodup_cons.mp hdistinct.2.1).1
    apply hnotMem
    rw [← heq]
    exact List.mem_map_of_mem (f := (·.1)) hafter
  have hleads (attributes' : List Attribute) (h : address? attributes' path = some position) :
      ∀ path' o', (path', o') ∈ after → o'.description ≠ none →
        address? attributes' path' ≠ some position := by
    intro path' o' hafter _ hposition'
    exact hlater path' o' hafter (address?_inj hposition' h)
  have hbefore : address? (applyOverrides before attributes) path = some position := by
    rw [address?_applyOverrides, hposition]
  have hsplit : applyOverrides (before ++ (path, o) :: after) attributes =
      applyOverrides after (o.apply path (applyOverrides before attributes)) := by
    unfold applyOverrides
    rw [List.foldl_append, List.foldl_cons]
  rw [hsplit, descriptionAt?_applyOverrides_of_ne]
  · exact AttributeOverride.descriptionAt?_apply hdescription hbefore
  · exact hleads _ (by rw [AttributeOverride.address?_apply, hbefore])

end Overrides

/-- What overrides make of a tree. -/
structure Redescribed (overrides : List (String × AttributeOverride))
    (before after : List Attribute) : Prop where
  /-- Nothing but descriptions is changed. -/
  undescribed_eq : undescribed after = undescribed before
  /-- Every path leads where it led before. -/
  address?_eq : ∀ path, address? after path = address? before path
  /-- What was found at the path of an override gets its description. -/
  described : ∀ path o description, (path, o) ∈ overrides → o.description = some description →
    ∀ a, find? before path = some a →
      ∃ a', find? after path = some a' ∧ a'.traits.description = some description
  /-- What is not found at such a path keeps its description. -/
  kept : ∀ position,
    (∀ path o, (path, o) ∈ overrides → o.description ≠ none →
      address? before path ≠ some position) →
    descriptionAt? position after = descriptionAt? position before

/-- Overrides change the descriptions of the addressed attributes and nothing
else, in whatever order they are made; and looking up goes where updating goes,
one part of a path after the other. -/
theorem redescribed_applyOverrides {overrides : List (String × AttributeOverride)}
    (hdistinct : (overrides.map (·.1)).Nodup) (attributes : List Attribute) :
    Redescribed overrides attributes (applyOverrides overrides attributes) ∧
      (∀ overrides', overrides.Perm overrides' →
        applyOverrides overrides' attributes = applyOverrides overrides attributes) ∧
      (∀ path, Addressed attributes path) ∧
      ∀ path path', find? attributes (path ++ "." ++ path') =
        (find? attributes path).bind fun a =>
          a.children?.bind fun children => find? children path' := by
  refine ⟨⟨undescribed_applyOverrides, address?_applyOverrides, ?_, fun _ =>
    descriptionAt?_applyOverrides_of_ne⟩, ?_, addressed attributes, find?_append attributes⟩
  · intro path o description hmem hdescription a ha
    rw [(addressed attributes path).found, Option.bind_eq_some_iff] at ha
    obtain ⟨position, hposition, -⟩ := ha
    have hafter := descriptionAt?_applyOverrides hdistinct hmem hdescription hposition
    obtain ⟨a', ha', hdescription'⟩ := Option.map_eq_some_iff.mp hafter
    refine ⟨a', ?_, hdescription'⟩
    rw [(addressed _ path).found, address?_applyOverrides, hposition, Option.bind_some, ha']
  · intro overrides' hperm
    have hsame : Table.Rearranged (· = ·) overrides overrides' :=
      Table.rearranged_of_perm (List.forall₂_same.mpr fun _ _ => ⟨rfl, rfl⟩) hperm hdistinct
    exact (applyOverrides_eq_of_rearranged hsame attributes).symm

/-- Two groups of one name, the names in the first one repeated, beside an
attribute whose name holds a dot. -/
def owners : List Attribute :=
  [.single "owner" { computability := .optional }
      [.scalar "id" { computability := .required, description := some "Number" } (.int64 none),
        .scalar "id" { computability := .required } (.int64 none),
        .scalar "" { computability := .computed, description := some "Blank" } (.bool none)],
    .single "owner" { computability := .optional }
      [.scalar "id" { computability := .required } (.string none)],
    .scalar "owner.id" { computability := .computed } (.string none)]

/-- Overrides of two attributes, one of a path that leads nowhere and one
without a description. -/
def ownerOverrides : List (String × AttributeOverride) :=
  [("owner.id", { description := some "Identifier" }), ("owner", {}),
    ("owner.", { description := some "" }), (".owner", { description := some "Nobody" })]

/-- The first attribute of each name is described, and no other one. -/
theorem redescribed_applyOverrides_owners :
    (ownerOverrides.map (·.1)).Nodup ∧
      Redescribed ownerOverrides owners (applyOverrides ownerOverrides owners) ∧
      address? owners "owner.id" = some [0, 0] ∧ address? owners "owner." = some [0, 2] ∧
      descriptionAt? [0, 0] (applyOverrides ownerOverrides owners) = some (some "Identifier") ∧
      descriptionAt? [0, 2] (applyOverrides ownerOverrides owners) = some (some "") ∧
      descriptionAt? [1, 0] (applyOverrides ownerOverrides owners) = some none :=
  have hdistinct : (ownerOverrides.map (·.1)).Nodup := by decide
  ⟨hdistinct, (redescribed_applyOverrides hdistinct owners).1, by decide, by decide, by decide,
    by decide, by decide⟩

end ProviderSchema
