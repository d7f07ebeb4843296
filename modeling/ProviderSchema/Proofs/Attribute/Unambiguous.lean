import ProviderSchema.Attribute.Encoding
import ProviderSchema.Proofs.Attribute.Everywhere
import ProviderSchema.Proofs.Attribute.FragmentMerge
import ProviderSchema.Proofs.Json.SameValue

/-!
# What the JSON value of an attribute tells

Attributes are alike if they are the same but for their validators, which only
have to be of the same kind and to be written in the same way.  The JSON values
of two attributes are the same precisely if the attributes are alike
(`Attribute.sameValue_toJson_iff`), provided that all defaults are finite.

The member that stands beside the name of an attribute is named for its variant.
Inside it the traits come first, and what the variant needs follows under names
that no trait has (`Attribute.shapeMembers`).  So the variant is told first, then
each trait, and then the rest, which has the same form for both attributes.  The
shapes of values are written in the same manner.
-/

namespace ProviderSchema

open Decimal (Binary64)
open Json (SameValue)

variable {same : Binary64 → Binary64 → Prop}

/-! ## Shapes of values -/

namespace ElementType

theorem toJson_eq (t : ElementType) : t.toJson = .object (members t) := by
  cases t <;> rfl

/-- What stands under the name of the shape. -/
def content : ElementType → List (String × Json)
  | .scalar _ => []
  | .collection _ element => [("element_type", element.toJson)]
  | .object fields => [("attribute_types", .array (fieldsToJson fields))]

theorem members_eq (t : ElementType) : members t = [(t.shapeName, .object t.content)] := by
  cases t <;> rfl

theorem fieldsToJson_eq_map (fields : List (String × ElementType)) :
    fieldsToJson fields = fields.map fun field =>
      .object [("name", .text field.1), (field.2.shapeName, .object field.2.content)] := by
  induction fields with
  | nil => rfl
  | cons field rest ih =>
    obtain ⟨name, t⟩ := field
    rw [fieldsToJson, ih, members_eq, List.map_cons]

theorem shapeName_ne_name (t : ElementType) : t.shapeName ≠ "name" := by
  rcases t with (_ | _ | _ | _ | _) | ⟨_ | _ | _, _⟩ | _ <;> exact ne_of_beq_false rfl

/-- The name stands beside the shape and is told with it. -/
theorem sameValue_field_iff {name name' : String} {t t' : ElementType} :
    SameValue same
        (.object [("name", .text name), (t.shapeName, .object t.content)])
        (.object [("name", .text name'), (t'.shapeName, .object t'.content)]) ↔
      name = name' ∧ t.shapeName = t'.shapeName ∧
        SameValue same (.object t.content) (.object t'.content) := by
  rw [Json.sameValue_cons, Json.sameValue_text_iff, Json.sameValue_singleton]
  · simp [shapeName_ne_name t]
  · simp [shapeName_ne_name t']

/-- What passes from the members and from the fields on to the shape holds of
all shapes. -/
theorem inductionOnParts {motive : ElementType → Prop}
    (scalar : ∀ kind, motive (.scalar kind))
    (collection : ∀ kind element, motive element → motive (.collection kind element))
    (object : ∀ fields, (∀ field ∈ fields, motive field.2) → motive (.object fields))
    (t : ElementType) : motive t := by
  cases t with
  | scalar kind => exact scalar kind
  | collection kind element =>
    exact collection kind element (inductionOnParts scalar collection object element)
  | object fields =>
    apply object
    intro field hfield
    have hlt : sizeOf field.2 < 1 + sizeOf fields := by
      have hsize := List.sizeOf_lt_of_mem hfield
      rw [Prod.mk.sizeOf_spec] at hsize
      omega
    exact inductionOnParts scalar collection object field.2
termination_by sizeOf t

/-- Where a name is told first, the rest is told among shapes of one name. -/
theorem shapeName_and_iff {t t' : ElementType} {p : Prop}
    (h : t.shapeName = t'.shapeName → (p ↔ t = t')) : t.shapeName = t'.shapeName ∧ p ↔ t = t' :=
  (and_congr_right h).trans (and_iff_right_of_imp (congrArg shapeName))

/-- Shapes of one name are told apart by what stands under it. -/
theorem sameValue_content_iff {t t' : ElementType} (hname : t.shapeName = t'.shapeName) :
    SameValue same (.object t.content) (.object t'.content) ↔ t = t' := by
  induction t using inductionOnParts generalizing t' with
  | scalar kind =>
    obtain ⟨_, ⟨⟩, rfl⟩ | ⟨_, _, _, ⟨⟩, _⟩ | ⟨_, _, ⟨⟩, _⟩ := shapeName_eq_iff.mp hname
    exact iff_of_true (.object fun _ => .none) rfl
  | collection kind element ih =>
    obtain ⟨_, ⟨⟩, _⟩ | ⟨_, _, element', ⟨⟩, rfl⟩ | ⟨_, _, ⟨⟩, _⟩ := shapeName_eq_iff.mp hname
    rw [content, content, Json.sameValue_singleton, toJson_eq, toJson_eq, members_eq,
      members_eq, Json.sameValue_singleton, shapeName_and_iff ih]
    simp
  | object fields ih =>
    obtain ⟨_, ⟨⟩, _⟩ | ⟨_, _, _, ⟨⟩, _⟩ | ⟨_, fields', ⟨⟩, rfl⟩ := shapeName_eq_iff.mp hname
    have hfield : ∀ field ∈ fields, ∀ field' ∈ fields',
        (SameValue same
          (.object [("name", .text field.1), (field.2.shapeName, .object field.2.content)])
          (.object [("name", .text field'.1), (field'.2.shapeName, .object field'.2.content)]) ↔
        field = field') := by
      intro field hmem field' _
      rw [sameValue_field_iff, shapeName_and_iff (ih field hmem), Prod.ext_iff]
    rw [content, content, Json.sameValue_singleton, Json.sameValue_array_iff,
      fieldsToJson_eq_map, fieldsToJson_eq_map, List.forall₂_map_left_iff,
      List.forall₂_map_right_iff, forall₂_congr_of_mem hfield, List.forall₂_eq_eq_eq]
    simp

/-- The JSON value of a shape tells the shape. -/
theorem sameValue_toJson_iff {t t' : ElementType} :
    SameValue same t.toJson t'.toJson ↔ t = t' := by
  rw [toJson_eq, toJson_eq, members_eq, members_eq, Json.sameValue_singleton,
    shapeName_and_iff sameValue_content_iff]

end ElementType

/-! ## Traits -/

/-- Validators are alike if they are of one kind and are written in one way. -/
structure Validator.Alike (v v' : Validator) : Prop where
  target : v.target = v'.target
  definition : v.definition = v'.definition

/-- Traits are alike if they are the same but for validators that are alike. -/
structure Traits.Alike (t t' : Traits) : Prop where
  computability : t.computability = t'.computability
  description : t.description = t'.description
  deprecation : t.deprecation = t'.deprecation
  sensitive : t.sensitive = t'.sensitive
  validators : List.Forall₂ Validator.Alike t.validators t'.validators

theorem Computability.name_injective : Function.Injective Computability.name := by
  intro c c' h
  cases c <;> cases c' <;> first | rfl | exact absurd h (by decide)

theorem ValidatorTarget.package_injective : Function.Injective ValidatorTarget.package := by
  intro target target' h
  cases target <;> cases target' <;> first | rfl | exact absurd h (by decide)

theorem Validator.importPath_eq_iff {v v' : Validator} :
    v.importPath = v'.importPath ↔ v.target = v'.target := by
  unfold importPath
  rw [String.append_right_inj, ValidatorTarget.package_injective.eq_iff]

/-- The import of a validator tells its kind. -/
theorem Validator.sameValue_toJson_iff {v v' : Validator} :
    SameValue same v.toJson v'.toJson ↔ v.Alike v' := by
  unfold toJson
  rw [Json.sameValue_singleton, Json.sameValue_cons rfl rfl, Json.sameValue_array_iff,
    List.forall₂_cons, Json.sameValue_singleton, Json.sameValue_singleton,
    Json.sameValue_text_iff, Json.sameValue_text_iff, importPath_eq_iff]
  constructor
  · rintro ⟨-, ⟨⟨-, htarget⟩, -⟩, -, hdefinition⟩
    exact ⟨htarget, hdefinition⟩
  · rintro ⟨htarget, hdefinition⟩
    exact ⟨rfl, ⟨⟨rfl, htarget⟩, .nil⟩, rfl, hdefinition⟩

namespace Traits

/-- The names of the members of the traits. -/
def memberNames : List String :=
  ["computed_optional_required", "description", "deprecation_message", "sensitive", "validators"]

/-- The values of the members of the traits. -/
def memberValues (t : Traits) : List (Option Json) :=
  [some (.text t.computability.name), t.description.map .text, t.deprecation.map .text,
    t.sensitive.map .bool, Json.listValue (t.validators.map Validator.toJson)]

theorem members_eq (t : Traits) : t.members = Json.recordMembers memberNames t.memberValues := by
  unfold members memberNames memberValues
  simp [Json.recordMembers, Json.listMember?_eq, Json.member?]

/-- Traits are told one by one, and apart from the members that follow. -/
theorem sameValue_members_append {t t' : Traits} {rest rest' : List (String × Json)}
    (hfresh : ∀ name ∈ memberNames, Table.get? rest name = none)
    (hfresh' : ∀ name ∈ memberNames, Table.get? rest' name = none) :
    SameValue same (.object (t.members ++ rest)) (.object (t'.members ++ rest')) ↔
      t.Alike t' ∧ SameValue same (.object rest) (.object rest') := by
  rw [members_eq, members_eq,
    Json.sameValue_recordMembers_append (by decide) rfl rfl hfresh hfresh']
  refine and_congr_left' ?_
  unfold memberValues
  simp only [List.forall₂_cons, Option.rel_some_some, rel_map_iff, Json.sameValue_text_iff,
    Json.sameValue_bool_iff, rel_eq_iff, Json.rel_listValue_iff, List.forall₂_map_left_iff,
    List.forall₂_map_right_iff, Validator.sameValue_toJson_iff,
    Computability.name_injective.eq_iff]
  constructor
  · rintro ⟨hcomputability, hdescription, hdeprecation, hsensitive, hvalidators, -⟩
    exact ⟨hcomputability, hdescription, hdeprecation, hsensitive, hvalidators⟩
  · rintro ⟨hcomputability, hdescription, hdeprecation, hsensitive, hvalidators⟩
    exact ⟨hcomputability, hdescription, hdeprecation, hsensitive, hvalidators, .nil⟩

end Traits

/-! ## Scalars -/

namespace ScalarShape

/-- The shapes are the same but for defaults that are the same numbers. -/
inductive Alike (same : Binary64 → Binary64 → Prop) : ScalarShape → ScalarShape → Prop where
  | bool (default : Option Bool) : Alike same (.bool default) (.bool default)
  | int64 (default : Option Int) : Alike same (.int64 default) (.int64 default)
  | float64 {default default' : Option Binary64} (h : Option.Rel same default default') :
      Alike same (.float64 default) (.float64 default')
  | number {default default' : Option Binary64} (h : Option.Rel same default default') :
      Alike same (.number default) (.number default')
  | string (default : Option String) : Alike same (.string default) (.string default)

theorem Alike.kind_eq {shape shape' : ScalarShape} (h : shape.Alike same shape') :
    shape.kind = shape'.kind := by
  cases h <;> rfl

/-- A default that is a number is finite. -/
def FiniteDefault : ScalarShape → Prop
  | .float64 default | .number default => ∀ x, default = some x → x.isFinite = true
  | _ => True

instance : DecidablePred FiniteDefault
  | .float64 default | .number default =>
    inferInstanceAs (Decidable (∀ x ∈ default, x.isFinite = true))
  | .bool _ | .int64 _ | .string _ => isTrue trivial

theorem rel_float_iff {x y : Option Binary64} (hx : ∀ a, x = some a → a.isFinite = true)
    (hy : ∀ a, y = some a → a.isFinite = true) :
    Option.Rel (SameValue same) (x.map .float) (y.map .float) ↔ Option.Rel same x y := by
  cases x with
  | none => cases y <;> simp
  | some a =>
    cases y with
    | none => simp
    | some b => simp [Json.sameValue_float_iff (hx a rfl), hy b rfl]

/-- The default is told once the kind of the scalar is. -/
theorem rel_default?_iff {shape shape' : ScalarShape} (hkind : shape.kind = shape'.kind)
    (h : shape.FiniteDefault) (h' : shape'.FiniteDefault) :
    Option.Rel (SameValue same) shape.default? shape'.default? ↔ shape.Alike same shape' := by
  cases shape with
  | bool default =>
    cases shape' with
    | bool default' =>
      rw [default?, default?, rel_map_iff]
      simp only [Json.sameValue_bool_iff, rel_eq_iff]
      exact ⟨fun h => h ▸ .bool default, fun h => by cases h; rfl⟩
    | _ => cases hkind
  | int64 default =>
    cases shape' with
    | int64 default' =>
      rw [default?, default?, rel_map_iff]
      simp only [Json.sameValue_integer_iff, rel_eq_iff]
      exact ⟨fun h => h ▸ .int64 default, fun h => by cases h; rfl⟩
    | _ => cases hkind
  | float64 default =>
    cases shape' with
    | float64 default' =>
      rw [default?, default?, rel_float_iff h h']
      exact ⟨.float64, fun h => by cases h; assumption⟩
    | _ => cases hkind
  | number default =>
    cases shape' with
    | number default' =>
      rw [default?, default?, rel_float_iff h h']
      exact ⟨.number, fun h => by cases h; assumption⟩
    | _ => cases hkind
  | string default =>
    cases shape' with
    | string default' =>
      rw [default?, default?, rel_map_iff]
      simp only [Json.sameValue_text_iff, rel_eq_iff]
      exact ⟨fun h => h ▸ .string default, fun h => by cases h; rfl⟩
    | _ => cases hkind

/-- The member of a scalar whose default may be missing. -/
def members (shape : ScalarShape) : List (String × Json) :=
  Json.member? "default" (shape.default?.map fun v => .object [("static", v)])

theorem sameValue_members_iff {shape shape' : ScalarShape} (hkind : shape.kind = shape'.kind)
    (h : shape.FiniteDefault) (h' : shape'.FiniteDefault) :
    SameValue same (.object shape.members) (.object shape'.members) ↔
      shape.Alike same shape' := by
  rw [members, members, Json.sameValue_member?, rel_map_iff]
  simp only [Json.sameValue_singleton, true_and]
  exact rel_default?_iff hkind h h'

end ScalarShape

/-! ## Attributes -/

namespace Attribute

/-- Attributes are alike if they are the same but for validators that are alike
and for defaults that are the same numbers. -/
inductive Alike (same : Binary64 → Binary64 → Prop) : Attribute → Attribute → Prop where
  | scalar (name : String) {traits traits' : Traits} {shape shape' : ScalarShape}
      (traitsAlike : traits.Alike traits') (shapesAlike : shape.Alike same shape') :
      Alike same (.scalar name traits shape) (.scalar name traits' shape')
  | collection (name : String) {traits traits' : Traits} (kind : CollectionKind)
      (element : ElementType) (traitsAlike : traits.Alike traits') :
      Alike same (.collection name traits kind element) (.collection name traits' kind element)
  | nested (name : String) {traits traits' : Traits} (kind : CollectionKind)
      {attributes attributes' : List Attribute} (traitsAlike : traits.Alike traits')
      (each : List.Forall₂ (Alike same) attributes attributes') :
      Alike same (.nested name traits kind attributes) (.nested name traits' kind attributes')
  | single (name : String) {traits traits' : Traits} {attributes attributes' : List Attribute}
      (traitsAlike : traits.Alike traits')
      (each : List.Forall₂ (Alike same) attributes attributes') :
      Alike same (.single name traits attributes) (.single name traits' attributes')

theorem Alike.variant_eq {a a' : Attribute} (h : a.Alike same a') : a.variant = a'.variant := by
  cases h with
  | scalar name _ hshape => exact congrArg Variant.scalar hshape.kind_eq
  | _ => rfl

/-- The default of a scalar is finite. -/
def FiniteDefault (a : Attribute) : Prop := ∀ shape, a.scalar? = some shape → shape.FiniteDefault

instance : DecidablePred FiniteDefault := fun a =>
  inferInstanceAs (Decidable (∀ shape ∈ a.scalar?, shape.FiniteDefault))

/-- The members that an attribute has for its shape, beside those of its traits. -/
def shapeMembers : Attribute → List (String × Json)
  | .scalar _ _ shape => shape.members
  | .collection _ _ _ element => [("element_type", element.toJson)]
  | .nested _ _ _ attributes =>
    [("nested_object", .object [("attributes", .array (listToJson attributes))])]
  | .single _ _ attributes => [("attributes", .array (listToJson attributes))]

theorem toJson_eq (a : Attribute) :
    a.toJson = .object [("name", .text a.name),
      (a.shapeName, .object (a.traits.members ++ a.shapeMembers))] := by
  cases a <;> rw [toJson] <;> rfl

theorem shapeName_ne_name (a : Attribute) : a.shapeName ≠ "name" := by
  rw [shapeName_eq_name_variant]
  rcases a.variant with (_ | _ | _ | _ | _) | (_ | _ | _) | (_ | _ | _) | _ <;> decide

theorem get?_shapeMembers (a : Attribute) :
    ∀ name ∈ Traits.memberNames, Table.get? a.shapeMembers name = none := by
  unfold Traits.memberNames
  cases a <;> simp [shapeMembers, ScalarShape.members]

/-- The name, the variant, the traits and the rest are told one by one. -/
theorem sameValue_toJson_iff_parts {a a' : Attribute} :
    SameValue same a.toJson a'.toJson ↔
      a.name = a'.name ∧ a.variant = a'.variant ∧ a.traits.Alike a'.traits ∧
        SameValue same (.object a.shapeMembers) (.object a'.shapeMembers) := by
  rw [toJson_eq, toJson_eq, Json.sameValue_cons, Json.sameValue_text_iff,
    Json.sameValue_singleton, shapeName_eq_iff,
    Traits.sameValue_members_append a.get?_shapeMembers a'.get?_shapeMembers]
  · simp [a.shapeName_ne_name]
  · simp [a'.shapeName_ne_name]

theorem listToJson_eq_map (attributes : List Attribute) :
    listToJson attributes = attributes.map toJson := by
  induction attributes with
  | nil => rw [listToJson, List.map_nil]
  | cons a rest ih => rw [listToJson, ih, List.map_cons]

/-- A list of attributes is told if each of them is. -/
theorem sameValue_listToJson_iff {attributes attributes' : List Attribute}
    (h : ∀ a ∈ attributes, ∀ a' ∈ attributes',
      (SameValue same a.toJson a'.toJson ↔ a.Alike same a')) :
    SameValue same (.array (listToJson attributes)) (.array (listToJson attributes')) ↔
      List.Forall₂ (Alike same) attributes attributes' := by
  rw [Json.sameValue_array_iff, listToJson_eq_map, listToJson_eq_map, List.forall₂_map_left_iff,
    List.forall₂_map_right_iff, forall₂_congr_of_mem h]

/-- The JSON value of an attribute tells the attribute, but for its validators. -/
theorem sameValue_toJson_iff {a a' : Attribute} (h : a.Each FiniteDefault)
    (h' : a'.Each FiniteDefault) : SameValue same a.toJson a'.toJson ↔ a.Alike same a' := by
  induction a using inductionOnChildren generalizing a' with
  | step a ih =>
    have hchildren {l l' : List Attribute} (hl : a.children? = some l)
        (hl' : a'.children? = some l') :
        SameValue same (.array (listToJson l)) (.array (listToJson l')) ↔
          List.Forall₂ (Alike same) l l' :=
      sameValue_listToJson_iff fun c hc c' hc' =>
        ih l hl c hc (h.children hl c hc) (h'.children hl' c' hc')
    rw [sameValue_toJson_iff_parts]
    by_cases hvariant : a.variant = a'.variant
    · cases a with
      | scalar name traits shape =>
        cases a' with
        | scalar name' traits' shape' =>
          have hkind := Variant.scalar.inj hvariant
          rw [shapeMembers, shapeMembers,
            ScalarShape.sameValue_members_iff hkind (h.own shape rfl) (h'.own shape' rfl)]
          constructor
          · rintro ⟨rfl, -, htraits, hshape⟩
            exact .scalar name htraits hshape
          · rintro ⟨_, htraits, hshape⟩
            exact ⟨rfl, hvariant, htraits, hshape⟩
        | _ => cases hvariant
      | collection name traits kind element =>
        cases a' with
        | collection name' traits' kind' element' =>
          obtain rfl := Variant.collection.inj hvariant
          rw [shapeMembers, shapeMembers, Json.sameValue_singleton,
            ElementType.sameValue_toJson_iff]
          constructor
          · rintro ⟨rfl, -, htraits, -, rfl⟩
            exact .collection name kind element htraits
          · rintro ⟨⟩
            exact ⟨rfl, rfl, ‹_›, rfl, rfl⟩
        | _ => cases hvariant
      | nested name traits kind attributes =>
        cases a' with
        | nested name' traits' kind' attributes' =>
          obtain rfl := Variant.nested.inj hvariant
          rw [shapeMembers, shapeMembers, Json.sameValue_singleton, Json.sameValue_singleton,
            hchildren rfl rfl]
          constructor
          · rintro ⟨rfl, -, htraits, -, -, heach⟩
            exact .nested name kind htraits heach
          · rintro ⟨⟩
            exact ⟨rfl, rfl, ‹_›, rfl, rfl, ‹_›⟩
        | _ => cases hvariant
      | single name traits attributes =>
        cases a' with
        | single name' traits' attributes' =>
          rw [shapeMembers, shapeMembers, Json.sameValue_singleton, hchildren rfl rfl]
          constructor
          · rintro ⟨rfl, -, htraits, -, heach⟩
            exact .single name htraits heach
          · rintro ⟨⟩
            exact ⟨rfl, rfl, ‹_›, rfl, ‹_›⟩
        | _ => cases hvariant
    · exact iff_of_false (fun h => hvariant h.2.1) (fun h => hvariant h.variant_eq)

end Attribute

end ProviderSchema
