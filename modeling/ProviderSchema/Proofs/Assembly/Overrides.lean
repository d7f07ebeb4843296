import ProviderSchema.Assembly.Contribution
import ProviderSchema.Proofs.Attribute.Everywhere

/-!
# Overrides

An override puts a description in the place of that of the attribute at a path,
and does nothing if there is no attribute (`AttributeOverride.apply_eq`).  So
overrides at different paths can be made in any order, and what does not depend
on descriptions holds everywhere after overrides if it does before them.
-/

namespace ProviderSchema

theorem AttributeOverride.apply_eq (o : AttributeOverride) (path : String)
    (attributes : List Attribute) :
    o.apply path attributes = match o.description with
      | none => attributes
      | some description =>
        Attribute.updateTraits (fun t => { t with description := some description })
          (Attribute.pathNames path) attributes := by
  unfold apply
  cases o.description with
  | none => rfl
  | some description => exact Attribute.getD_updateNames? _ _ _

/-- Overrides at different paths can be made in any order. -/
theorem AttributeOverride.apply_comm {path path' : String} (hne : path ≠ path')
    (o o' : AttributeOverride) (attributes : List Attribute) :
    o.apply path (o'.apply path' attributes) = o'.apply path' (o.apply path attributes) := by
  simp only [apply_eq]
  cases o.description with
  | none => rfl
  | some description =>
    cases o'.description with
    | none => rfl
    | some description' =>
      exact Attribute.updateTraits_comm (fun h => hne (Attribute.pathNames_inj.mp h)) _ _ attributes

/-- What is kept when one attribute is described otherwise is kept by overrides. -/
theorem applyOverrides_induction {P : List Attribute → Prop}
    (hstep : ∀ description names attributes, P attributes →
      P (Attribute.updateTraits (fun t => { t with description := some description }) names
        attributes))
    (overrides : List (String × AttributeOverride)) {attributes : List Attribute}
    (h : P attributes) : P (applyOverrides overrides attributes) := by
  unfold applyOverrides
  induction overrides generalizing attributes with
  | nil => exact h
  | cons entry rest ih =>
    apply ih
    dsimp only
    rw [AttributeOverride.apply_eq]
    cases entry.2.description with
    | none => exact h
    | some description => exact hstep description _ _ h

/-- What a change of descriptions keeps holds everywhere after overrides. -/
theorem Attribute.Each.applyOverrides {P : Attribute → Prop} (hP : IgnoresChildren P)
    (hdescribed : ∀ (a : Attribute) description, P a →
      P (a.mapTraits fun t => { t with description := some description }))
    (overrides : List (String × AttributeOverride)) {attributes : List Attribute}
    (h : ∀ a ∈ attributes, a.Each P) : ∀ a ∈ applyOverrides overrides attributes, a.Each P := by
  refine applyOverrides_induction (P := fun attributes => ∀ a ∈ attributes, a.Each P) ?_ overrides h
  intro description names attributes
  exact Each.updateTraits hP (fun a => hdescribed a description) names

end ProviderSchema
