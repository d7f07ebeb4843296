import ProviderSchema.Proofs.Attribute.Fragments

/-!
# Merges of fragments

Merges and disagreements are defined for each kind of fragment on its own.  Here
they are told by parts, once for all kinds.  Fragments of different shapes are not
merged but reported (`Fragment.merge_of_shapeName_ne`,
`Fragment.mismatches_of_shapeName_ne`).  Fragments of one shape are alike: their
parts are merged and compared (`Fragment.Alike.child?_merge`,
`Fragment.Alike.mismatches_eq_flatMap`).
-/

namespace ProviderSchema

/-! ## Shapes and variants -/

/-- The name of a variant. -/
def Attribute.Variant.name : Attribute.Variant → String
  | .scalar kind => kind.name
  | .collection kind => kind.name
  | .nested kind => kind.name ++ "_nested"
  | .single => "single_nested"

theorem Attribute.Variant.name_injective {v w : Attribute.Variant} (h : v.name = w.name) :
    v = w := by
  rcases v with (_ | _ | _ | _ | _) | (_ | _ | _) | (_ | _ | _) | _ <;>
    rcases w with (_ | _ | _ | _ | _) | (_ | _ | _) | (_ | _ | _) | _ <;>
      first
      | rfl
      | exact absurd h (by decide)

theorem Attribute.shapeName_eq_name_variant (a : Attribute) : a.shapeName = a.variant.name := by
  cases a <;> rfl

/-- The shape of an attribute is told by its name. -/
theorem Attribute.shapeName_eq_iff {a s : Attribute} :
    a.shapeName = s.shapeName ↔ a.variant = s.variant := by
  rw [shapeName_eq_name_variant, shapeName_eq_name_variant]
  exact ⟨Variant.name_injective, congrArg Variant.name⟩

theorem ScalarKind.name_ne_object (kind : ScalarKind) : kind.name ≠ "object" := by
  cases kind <;> decide

theorem CollectionKind.name_ne_object (kind : CollectionKind) : kind.name ≠ "object" := by
  cases kind <;> decide

namespace ElementType

variable {t s : ElementType}

/-- The shape of a value is told by its name. -/
theorem shapeName_eq_iff :
    t.shapeName = s.shapeName ↔
      (∃ kind, t = .scalar kind ∧ s = .scalar kind) ∨
        (∃ kind element element', t = .collection kind element ∧ s = .collection kind element') ∨
          ∃ fields fields', t = .object fields ∧ s = .object fields' := by
  constructor
  · intro h
    cases t with
    | scalar kind =>
      cases s with
      | scalar kind' =>
        cases Attribute.Variant.name_injective (v := .scalar kind) (w := .scalar kind') h
        exact .inl ⟨kind, rfl, rfl⟩
      | collection kind' _ =>
        cases Attribute.Variant.name_injective (v := .scalar kind) (w := .collection kind') h
      | object => exact absurd h kind.name_ne_object
    | collection kind t =>
      cases s with
      | scalar kind' =>
        cases Attribute.Variant.name_injective (v := .collection kind) (w := .scalar kind') h
      | collection kind' s =>
        cases Attribute.Variant.name_injective (v := .collection kind) (w := .collection kind') h
        exact .inr (.inl ⟨kind, t, s, rfl, rfl⟩)
      | object => exact absurd h kind.name_ne_object
    | object fields =>
      cases s with
      | scalar kind => exact absurd h.symm kind.name_ne_object
      | collection kind _ => exact absurd h.symm kind.name_ne_object
      | object fields' => exact .inr (.inr ⟨fields, fields', rfl, rfl⟩)
  · rintro (⟨kind, rfl, rfl⟩ | ⟨kind, t, s, rfl, rfl⟩ | ⟨fields, fields', rfl, rfl⟩) <;> rfl

theorem shapeName_merge (t s : ElementType) : (t.merge s).shapeName = t.shapeName := by
  cases s with
  | scalar => rw [merge]
  | collection kind s =>
    cases t with
    | collection kind' t =>
      rw [merge]
      split <;> rfl
    | _ => rfl
  | object sources => cases t <;> rfl

theorem merge_of_shapeName_ne (h : t.shapeName ≠ s.shapeName) : t.merge s = t := by
  cases s with
  | scalar => rw [merge]
  | collection kind s =>
    cases t with
    | collection kind' t =>
      rw [merge, if_neg]
      rintro rfl
      exact h rfl
    | _ => rfl
  | object sources =>
    cases t with
    | object fields => exact absurd rfl h
    | _ => rfl

theorem mismatches_of_shapeName_ne (h : t.shapeName ≠ s.shapeName) (path : String) :
    t.mismatches path s = [⟨path, t.shapeName, s.shapeName⟩] := by
  cases s with
  | scalar kind =>
    rw [mismatches]
    exact if_neg h
  | collection kind s =>
    cases t with
    | collection kind' t =>
      rw [mismatches, if_neg]
      · rfl
      · rintro rfl
        exact h rfl
    | _ => rfl
  | object sources =>
    cases t with
    | object fields => exact absurd rfl h
    | _ => rfl

end ElementType

namespace Attribute

theorem mismatches_of_variant_ne {a s : Attribute} (h : a.variant ≠ s.variant) (path : String) :
    a.mismatches path s = [⟨path, a.shapeName, s.shapeName⟩] := by
  have hname : a.shapeName ≠ s.shapeName := fun heq => h (shapeName_eq_iff.mp heq)
  cases s with
  | scalar name traits shape =>
    rw [mismatches]
    exact if_neg hname
  | collection name traits kind element =>
    cases a with
    | collection name' traits' kind' element' =>
      rw [mismatches, if_neg]
      · rfl
      · rintro rfl
        exact h rfl
    | _ => rfl
  | nested name traits kind attributes =>
    cases a with
    | nested name' traits' kind' attributes' =>
      rw [mismatches, if_neg]
      · rfl
      · rintro rfl
        exact h rfl
    | _ => rfl
  | single name traits attributes =>
    cases a with
    | single => exact absurd rfl h
    | _ => rfl

end Attribute

namespace Fragment

variable {t s : Fragment}

/-! ## Alike fragments -/

/-- The kinds of fragments. -/
inductive Level where
  | list
  | item
  | value

/-- The kind of a fragment. -/
def level : Fragment → Level
  | .list _ => .list
  | .item _ => .item
  | .value _ => .value

/-- Fragments of one kind and one shape. -/
inductive Alike : Fragment → Fragment → Prop where
  | list (target source : List Attribute) : Alike (.list target) (.list source)
  | scalar {name name' : String} {traits traits' : Traits} {shape shape' : ScalarShape}
      (hkind : shape.kind = shape'.kind) :
      Alike (.item (.scalar name traits shape)) (.item (.scalar name' traits' shape'))
  | collection {name name' : String} {traits traits' : Traits} (kind : CollectionKind)
      (target source : ElementType) :
      Alike (.item (.collection name traits kind target))
        (.item (.collection name' traits' kind source))
  | nested {name name' : String} {traits traits' : Traits} (kind : CollectionKind)
      (target source : List Attribute) :
      Alike (.item (.nested name traits kind target)) (.item (.nested name' traits' kind source))
  | single {name name' : String} {traits traits' : Traits} (target source : List Attribute) :
      Alike (.item (.single name traits target)) (.item (.single name' traits' source))
  | scalarValue (kind : ScalarKind) : Alike (.value (.scalar kind)) (.value (.scalar kind))
  | collectionValue (kind : CollectionKind) (target source : ElementType) :
      Alike (.value (.collection kind target)) (.value (.collection kind source))
  | object (target source : List (String × ElementType)) :
      Alike (.value (.object target)) (.value (.object source))

/-- Nothing but the kind and the name of the shape tells which fragments are alike. -/
theorem alike_of_shapeName_eq (hlevel : t.level = s.level) (hshape : t.shapeName = s.shapeName) :
    Alike t s := by
  cases t with
  | list target =>
    cases s with
    | list source => exact .list target source
    | _ => cases hlevel
  | item a =>
    cases s with
    | item s =>
      have hvariant : a.variant = s.variant := Attribute.shapeName_eq_iff.mp hshape
      cases a with
      | scalar =>
        cases s with
        | scalar => exact .scalar (Attribute.Variant.scalar.inj hvariant)
        | _ => cases hvariant
      | collection =>
        cases s <;> cases hvariant
        exact .collection _ _ _
      | nested =>
        cases s <;> cases hvariant
        exact .nested _ _ _
      | single =>
        cases s <;> cases hvariant
        exact .single _ _
    | _ => cases hlevel
  | value t =>
    cases s with
    | value s =>
      rcases ElementType.shapeName_eq_iff.mp hshape with
        ⟨kind, rfl, rfl⟩ | ⟨kind, target, source, rfl, rfl⟩ | ⟨target, source, rfl, rfl⟩
      · exact .scalarValue kind
      · exact .collectionValue kind target source
      · exact .object target source
    | _ => cases hlevel

theorem Alike.level_eq (h : Alike t s) : t.level = s.level := by
  cases h <;> rfl

theorem Alike.shapeName_eq (h : Alike t s) : t.shapeName = s.shapeName := by
  cases h with
  | scalar hkind => exact congrArg ScalarKind.name hkind
  | _ => rfl

theorem level_of_lookup_ofAttributes {attributes : List Attribute} {segment : Segment}
    {f : Fragment} (h : lookup (ofAttributes attributes) segment = some f) : f.level = .item := by
  obtain ⟨part, hpart, rfl⟩ := Option.map_eq_some_iff.mp h
  obtain ⟨a, -, rfl⟩ := List.mem_map.mp (List.mem_of_find?_eq_some hpart)
  rfl

theorem level_of_lookup_ofFields {fields : List (String × ElementType)} {segment : Segment}
    {f : Fragment} (h : lookup (ofFields fields) segment = some f) : f.level = .value := by
  obtain ⟨part, hpart, rfl⟩ := Option.map_eq_some_iff.mp h
  obtain ⟨field, -, rfl⟩ := List.mem_map.mp (List.mem_of_find?_eq_some hpart)
  rfl

theorem level_of_lookup_members {t : ElementType} {segment : Segment} {f : Fragment}
    (h : lookup [(.members, .value t)] segment = some f) : f.level = .value := by
  obtain ⟨part, hpart, rfl⟩ := Option.map_eq_some_iff.mp h
  obtain rfl := List.mem_singleton.mp (List.mem_of_find?_eq_some hpart)
  rfl

/-- Parts at one segment of alike fragments are of one kind. -/
theorem Alike.level_eq_of_child? (h : Alike t s) {segment : Segment} {f g : Fragment}
    (hf : t.child? segment = some f) (hg : s.child? segment = some g) : f.level = g.level := by
  cases h with
  | scalar | scalarValue => cases hf
  | list | nested | single =>
    exact (level_of_lookup_ofAttributes hf).trans (level_of_lookup_ofAttributes hg).symm
  | collection | collectionValue =>
    exact (level_of_lookup_members hf).trans (level_of_lookup_members hg).symm
  | object => exact (level_of_lookup_ofFields hf).trans (level_of_lookup_ofFields hg).symm

/-! ## Merges -/

/-- The union of two fragments of one kind, the second one being that of lower
priority. -/
def merge : Fragment → Fragment → Fragment
  | .list target, .list source => .list (Attribute.mergeAll target source)
  | .item target, .item source => .item (target.merge source)
  | .value target, .value source => .value (target.merge source)
  | target, _ => target

theorem shapeName_merge (t s : Fragment) : (t.merge s).shapeName = t.shapeName := by
  cases t <;> cases s <;> try rfl
  · exact Attribute.shapeName_eq_iff.mpr (Attribute.variant_merge _ _)
  · exact ElementType.shapeName_merge _ _

theorem level_merge (t s : Fragment) : (t.merge s).level = t.level := by
  cases t <;> cases s <;> rfl

/-- What is merged is still alike what it was alike before. -/
theorem Alike.merge_left (h : Alike t s) (r : Fragment) : Alike (t.merge r) s :=
  alike_of_shapeName_eq ((level_merge t r).trans h.level_eq)
    ((shapeName_merge t r).trans h.shapeName_eq)

/-- Of fragments of different shapes the first one is kept. -/
theorem merge_of_shapeName_ne (h : t.shapeName ≠ s.shapeName) : t.merge s = t := by
  cases t <;> cases s <;> try rfl
  · exact absurd rfl h
  · rename_i a s
    have hvariant : a.variant ≠ s.variant := fun heq => h (Attribute.shapeName_eq_iff.mpr heq)
    rw [merge, Attribute.merge_of_variant_ne hvariant]
  · rw [merge, ElementType.merge_of_shapeName_ne h]

theorem lookup_ofAttributes_mergeAll (target : List Attribute) {source : List Attribute}
    (h : ((ofAttributes source).map (·.1)).Nodup) (segment : Segment) :
    lookup (ofAttributes (Attribute.mergeAll target source)) segment =
      Option.merge merge (lookup (ofAttributes target) segment)
        (lookup (ofAttributes source) segment) := by
  cases segment with
  | members => simp
  | named name =>
    have hfind := find?_mergeByKey Attribute.name_merge target (nodup_ofAttributes.mp h) name
    rw [lookup_ofAttributes_named, lookup_ofAttributes_named, lookup_ofAttributes_named,
      Attribute.mergeAll_eq_mergeByKey, hfind]
    cases target.find? (·.name = name) <;> cases source.find? (·.name = name) <;> rfl

theorem lookup_ofFields_mergeFields (target : List (String × ElementType))
    {source : List (String × ElementType)} (h : ((ofFields source).map (·.1)).Nodup)
    (segment : Segment) :
    lookup (ofFields (ElementType.mergeFields target source)) segment =
      Option.merge merge (lookup (ofFields target) segment) (lookup (ofFields source) segment) := by
  cases segment with
  | members => simp
  | named name =>
    have hlookup (fields : List (String × ElementType)) :
        lookup (ofFields fields) (.named name) = (Table.get? fields name).map value := by
      rw [lookup_ofFields_named, Table.get?, Option.map_map]
      rfl
    rw [hlookup, hlookup, hlookup, ElementType.get?_mergeFields target (nodup_ofFields.mp h)]
    cases Table.get? target name <;> cases Table.get? source name <;> rfl

theorem lookup_singleton_merge (t s : ElementType) (segment : Segment) :
    lookup [(.members, .value (t.merge s))] segment =
      Option.merge merge (lookup [(.members, .value t)] segment)
        (lookup [(.members, .value s)] segment) := by
  cases segment with
  | members => rfl
  | named name => rfl

/-- The parts of alike fragments are merged. -/
theorem Alike.child?_merge (h : Alike t s) (hs : s.Unique) (segment : Segment) :
    (t.merge s).child? segment = Option.merge merge (t.child? segment) (s.child? segment) := by
  cases h with
  | list target source => exact lookup_ofAttributes_mergeAll target hs.nodup_parts segment
  | scalar hkind =>
    rw [merge, Attribute.merge, if_pos hkind]
    rfl
  | collection kind target source =>
    rw [merge, Attribute.merge, if_pos rfl]
    exact lookup_singleton_merge target source segment
  | nested kind target source =>
    rw [merge, Attribute.merge, if_pos rfl]
    exact lookup_ofAttributes_mergeAll target hs.nodup_parts segment
  | single target source =>
    rw [merge, Attribute.merge]
    exact lookup_ofAttributes_mergeAll target hs.nodup_parts segment
  | scalarValue kind => rfl
  | collectionValue kind target source =>
    rw [merge, ElementType.merge, if_pos rfl]
    exact lookup_singleton_merge target source segment
  | object target source =>
    rw [merge, ElementType.merge]
    exact lookup_ofFields_mergeFields target hs.nodup_parts segment

/-! ## Disagreements -/

/-- The disagreements met while two fragments of one kind are merged. -/
def mismatches (path : String) : Fragment → Fragment → List Mismatch
  | .list target, .list source => Attribute.allMismatches path target source
  | .item target, .item source => target.mismatches path source
  | .value target, .value source => target.mismatches path source
  | _, _ => []

/-- The disagreements of a part with the one that is at its segment. -/
def partMismatches (path : String) (targets : List (Segment × Fragment))
    (part : Segment × Fragment) : List Mismatch :=
  match lookup targets part.1 with
  | some target => target.mismatches (part.1.extend path) part.2
  | none => []

/-- Fragments of different shapes are reported. -/
theorem mismatches_of_shapeName_ne (hlevel : t.level = s.level) (h : t.shapeName ≠ s.shapeName)
    (path : String) : t.mismatches path s = [⟨path, t.shapeName, s.shapeName⟩] := by
  cases t <;> cases s <;> try cases hlevel
  · exact absurd rfl h
  · rename_i a s
    have hvariant : a.variant ≠ s.variant := fun heq => h (Attribute.shapeName_eq_iff.mpr heq)
    exact Attribute.mismatches_of_variant_ne hvariant path
  · exact ElementType.mismatches_of_shapeName_ne h path

theorem partMismatches_congr {path : String} {targets targets' : List (Segment × Fragment)}
    {part : Segment × Fragment} (h : lookup targets' part.1 = lookup targets part.1) :
    partMismatches path targets' part = partMismatches path targets part := by
  rw [partMismatches, partMismatches, h]

/-- The attributes that are merged before another one have other names, so it meets
what was there. -/
theorem allMismatches_eq_flatMap (path : String) (target : List Attribute)
    {source : List Attribute} (h : ((ofAttributes source).map (·.1)).Nodup) :
    Attribute.allMismatches path target source =
      (ofAttributes source).flatMap (partMismatches path (ofAttributes target)) := by
  induction source generalizing target with
  | nil => rw [Attribute.allMismatches]; rfl
  | cons first rest ih =>
    have hnames := nodup_ofAttributes.mp h
    rw [List.map_cons, List.nodup_cons] at hnames
    have hrest : ∀ part ∈ ofAttributes rest,
        partMismatches path (ofAttributes (Attribute.mergeAll target [first])) part =
          partMismatches path (ofAttributes target) part := by
      intro part hpart
      obtain ⟨a, ha, rfl⟩ := List.mem_map.mp hpart
      have hne : first.name ≠ a.name := fun heq => hnames.1 (heq ▸ List.mem_map_of_mem ha)
      have hfirst : ((ofAttributes [first]).map (·.1)).Nodup := List.nodup_singleton _
      refine partMismatches_congr ?_
      rw [lookup_ofAttributes_mergeAll target hfirst]
      simp [hne]
    rw [Attribute.allMismatches, ih _ (nodup_ofAttributes.mpr hnames.2), List.flatMap_congr hrest]
    refine congrArg (· ++ _) ?_
    rw [partMismatches, lookup_ofAttributes_named]
    cases target.find? (·.name = first.name) <;> rfl

theorem fieldMismatches_eq_flatMap (path : String) (target : List (String × ElementType))
    {source : List (String × ElementType)} (h : ((ofFields source).map (·.1)).Nodup) :
    ElementType.fieldMismatches path target source =
      (ofFields source).flatMap (partMismatches path (ofFields target)) := by
  induction source generalizing target with
  | nil => rw [ElementType.fieldMismatches]; rfl
  | cons first rest ih =>
    have hnames := nodup_ofFields.mp h
    rw [List.map_cons, List.nodup_cons] at hnames
    have hrest : ∀ part ∈ ofFields rest,
        partMismatches path (ofFields (ElementType.mergeFields target [first])) part =
          partMismatches path (ofFields target) part := by
      intro part hpart
      obtain ⟨field, hfield, rfl⟩ := List.mem_map.mp hpart
      have hne : first.1 ≠ field.1 := fun heq => hnames.1 (heq ▸ List.mem_map_of_mem hfield)
      have hfirst : ((ofFields [first]).map (·.1)).Nodup := List.nodup_singleton _
      refine partMismatches_congr ?_
      rw [lookup_ofFields_mergeFields target hfirst]
      simp [hne]
    rw [ElementType.fieldMismatches, ih _ (nodup_ofFields.mpr hnames.2), List.flatMap_congr hrest]
    refine congrArg (· ++ _) ?_
    rw [partMismatches, lookup_ofFields_named]
    cases target.find? (·.1 = first.1) <;> rfl

/-- The parts of alike fragments are compared. -/
theorem Alike.mismatches_eq_flatMap (h : Alike t s) (hs : s.Unique) (path : String) :
    t.mismatches path s = s.parts.flatMap (partMismatches path t.parts) := by
  cases h with
  | list target source => exact allMismatches_eq_flatMap path target hs.nodup_parts
  | scalar hkind =>
    rw [mismatches, Attribute.mismatches]
    exact if_pos (congrArg ScalarKind.name hkind)
  | collection kind target source =>
    rw [mismatches, Attribute.mismatches, if_pos rfl]
    exact (List.append_nil _).symm
  | nested kind target source =>
    rw [mismatches, Attribute.mismatches, if_pos rfl]
    exact allMismatches_eq_flatMap path target hs.nodup_parts
  | single target source =>
    rw [mismatches, Attribute.mismatches]
    exact allMismatches_eq_flatMap path target hs.nodup_parts
  | scalarValue kind =>
    rw [mismatches, ElementType.mismatches]
    exact if_pos rfl
  | collectionValue kind target source =>
    rw [mismatches, ElementType.mismatches, if_pos rfl]
    exact (List.append_nil _).symm
  | object target source =>
    rw [mismatches, ElementType.mismatches]
    exact fieldMismatches_eq_flatMap path target hs.nodup_parts

/-- The disagreements with one source are those of the lists. -/
theorem attributeMismatches_singleton (target source : List Attribute) :
    attributeMismatches target [source] = mismatches "" (.list target) (.list source) := by
  rw [attributeMismatches, attributeMismatches, List.append_nil]
  rfl

end Fragment

end ProviderSchema
