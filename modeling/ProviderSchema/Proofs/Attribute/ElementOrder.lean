import ProviderSchema.Proofs.Attribute.Associativity
import ProviderSchema.Proofs.Attribute.NameLists
import ProviderSchema.Proofs.Document.Rearranged

/-!
# The order of element types

A shape is below another one if the other one has all that it has: scalars are
equal, collections are of one kind with the members below, and each field of an
object has a field of its name in the other one, with a shape above.

A merge is the least upper bound.  It is above its target in any case
(`below_merge_left`).  If there is a bound of both shapes at all, it is above the
source too (`below_merge_right`) and below every such bound (`merge_below`).  So
shapes with a common bound may be merged in either order: the results are below
each other, and shapes that are differ in the order of fields only
(`rearranged_of_below`).
-/

namespace ProviderSchema.ElementType

/-- The second shape has all that the first one has.  Of the fields of one name in
the second one the first counts, as it does in a merge. -/
inductive Below : ElementType → ElementType → Prop where
  | scalar (kind : ScalarKind) : Below (.scalar kind) (.scalar kind)
  | collection (kind : CollectionKind) {t u : ElementType} (members : Below t u) :
      Below (.collection kind t) (.collection kind u)
  | object {fields fields' : List (String × ElementType)}
      (names : fields.map (·.1) ⊆ fields'.map (·.1))
      (each : ∀ name t u, (name, t) ∈ fields → Table.get? fields' name = some u → Below t u) :
      Below (.object fields) (.object fields')

/-- The shapes differ in the order of fields only, at any level. -/
inductive Rearranged : ElementType → ElementType → Prop where
  | scalar (kind : ScalarKind) : Rearranged (.scalar kind) (.scalar kind)
  | collection (kind : CollectionKind) {t u : ElementType} (members : Rearranged t u) :
      Rearranged (.collection kind t) (.collection kind u)
  | object {fields fields' : List (String × ElementType)}
      (names : (fields.map (·.1)).Perm (fields'.map (·.1))) (distinct : (fields.map (·.1)).Nodup)
      (values : ∀ name t u, Table.get? fields name = some t → Table.get? fields' name = some u →
        Rearranged t u) :
      Rearranged (.object fields) (.object fields')

variable {t s u : ElementType}

/-! ## The order -/

/-- Where no name occurs twice, each field has one of its name that is above. -/
theorem below_object_iff {fields fields' : List (String × ElementType)}
    (hnames : (fields'.map (·.1)).Nodup) :
    (object fields).Below (object fields') ↔
      ∀ field ∈ fields, ∃ field' ∈ fields', field'.1 = field.1 ∧ field.2.Below field'.2 := by
  constructor
  · rintro h ⟨name, t⟩ ht
    cases h with
    | object names each =>
      obtain ⟨⟨_, u⟩, hu, rfl⟩ := List.mem_map.mp (names (List.mem_map_of_mem ht))
      exact ⟨_, hu, rfl, each _ t u ht ((Table.get?_eq_some_iff hnames).mpr hu)⟩
  · intro h
    refine .object (fun name hname => ?_) fun name t u ht hu => ?_
    · obtain ⟨field, hfield, rfl⟩ := List.mem_map.mp hname
      obtain ⟨field', hfield', hname', -⟩ := h field hfield
      exact hname' ▸ List.mem_map_of_mem hfield'
    · obtain ⟨field', hfield', rfl, hbelow⟩ := h (name, t) ht
      rw [(Table.get?_eq_some_iff hnames).mpr hfield'] at hu
      exact Option.some.inj hu ▸ hbelow

theorem below_refl (h : t.FieldNames List.Nodup) : t.Below t := by
  induction h with
  | scalar kind => exact .scalar kind
  | collection kind _ ih => exact .collection kind ih
  | object names _ ih =>
    exact (below_object_iff names).mpr fun field h => ⟨field, h, rfl, ih field h⟩

/-- Shapes that are below each other have the same fields. -/
theorem rearranged_of_below (ht : t.FieldNames List.Nodup) (hu : u.FieldNames List.Nodup)
    (h : t.Below u) (h' : u.Below t) : t.Rearranged u := by
  induction h with
  | scalar kind => exact .scalar kind
  | collection kind _ ih =>
    cases ht with
    | collection _ ht =>
      cases hu with
      | collection _ hu =>
        cases h' with
        | collection _ members' => exact .collection kind (ih ht hu members')
  | object names _ ih =>
    cases ht with
    | object hnames heach =>
      cases hu with
      | object hnames' heach' =>
        cases h' with
        | object names' each' =>
          refine .object ?_ hnames fun name t u hget hget' => ?_
          · rw [List.perm_ext_iff_of_nodup hnames hnames']
            exact fun name => ⟨@names name, @names' name⟩
          · have ht := Table.mem_of_get?_eq_some hget
            have hu := Table.mem_of_get?_eq_some hget'
            exact ih name t u ht hget' (heach _ ht) (heach' _ hu) (each' name u t hu hget)

/-! ## Merges -/

theorem mem_map_fst_mergeFields {fields sources : List (String × ElementType)} {name : String} :
    name ∈ (mergeFields fields sources).map (·.1) ↔
      name ∈ fields.map (·.1) ∨ name ∈ sources.map (·.1) := by
  rw [mergeFields_eq_mergeByKey, mem_map_key_mergeByKey]
  exact fun _ _ => rfl

theorem nodup_map_fst_mergeFields {fields : List (String × ElementType)}
    (sources : List (String × ElementType)) (h : (fields.map (·.1)).Nodup) :
    ((mergeFields fields sources).map (·.1)).Nodup := by
  rw [mergeFields_eq_mergeByKey]
  apply nodup_map_key_mergeByKey
  · exact fun _ _ => rfl
  · exact h

/-- A merge has all that its target has, also where the shapes disagree. -/
theorem below_merge_left (ht : t.FieldNames List.Nodup) (hs : s.FieldNames List.Nodup) :
    t.Below (t.merge s) := by
  induction hs generalizing t with
  | scalar kind =>
    rw [merge]
    exact below_refl ht
  | collection kind _ ih =>
    cases ht with
    | scalar kind' => exact .scalar kind'
    | object names each => exact below_refl (.object names each)
    | collection kind' ht =>
      rw [merge]
      split
      · exact .collection kind' (ih ht)
      · exact .collection kind' (below_refl ht)
  | @object sources hnames' _ ih =>
    cases ht with
    | scalar kind => exact .scalar kind
    | collection kind ht => exact .collection kind (below_refl ht)
    | @object fields hnames heach =>
      rw [merge]
      refine .object (fun name hname => mem_map_fst_mergeFields.mpr (.inl hname)) ?_
      intro name t u hmem hu
      rw [get?_mergeFields fields hnames', (Table.get?_eq_some_iff hnames).mpr hmem] at hu
      cases hsource : Table.get? sources name with
      | none =>
        rw [hsource] at hu
        exact Option.some.inj hu ▸ below_refl (heach _ hmem)
      | some s =>
        rw [hsource] at hu
        exact Option.some.inj hu ▸ ih _ (Table.mem_of_get?_eq_some hsource) (heach _ hmem)

theorem child?_object (fields : List (String × ElementType)) (name : String) :
    (Fragment.value (object fields)).child? (.named name) =
      (Table.get? fields name).map Fragment.value := by
  rw [Fragment.child?, Fragment.parts, Fragment.lookup_ofFields_named, Table.get?, Option.map_map]
  rfl

/-- Shapes with a common bound disagree nowhere. -/
theorem fits_of_below (htu : t.Below u) (hsu : s.Below u) :
    Fragment.Fits (.value t) (.value s) := by
  induction hsu generalizing t with
  | scalar kind =>
    cases htu
    refine .mk (.scalarValue kind) ?_
    rintro _ _ _ ⟨⟩
  | collection kind _ ih =>
    cases htu with
    | collection _ members =>
      refine .mk (.collectionValue kind _ _) fun segment f g hf hg => ?_
      obtain ⟨-, rfl⟩ := Prod.mk.inj
        (List.mem_singleton.mp (Fragment.mem_parts_of_child?_eq_some hf))
      obtain ⟨-, rfl⟩ := Prod.mk.inj
        (List.mem_singleton.mp (Fragment.mem_parts_of_child?_eq_some hg))
      exact ih members
  | object names' _ ih =>
    cases htu with
    | object _ each =>
      refine .mk (.object _ _) fun segment f g hf hg => ?_
      cases segment with
      | members => cases (Fragment.lookup_ofFields_members _).symm.trans hf
      | named name =>
        rw [child?_object, Option.map_eq_some_iff] at hf hg
        obtain ⟨t, ht, rfl⟩ := hf
        obtain ⟨s, hs, rfl⟩ := hg
        have hsource := Table.mem_of_get?_eq_some hs
        have hname := names' (List.mem_map_of_mem hsource)
        obtain ⟨u, hu⟩ := Option.isSome_iff_exists.mp (Table.isSome_get?_iff.mpr hname)
        exact ih name s u hsource hu (each name t u (Table.mem_of_get?_eq_some ht) hu)

/-- A merge of shapes that disagree nowhere has all that its source has. -/
theorem below_merge_of_fits (hs : s.FieldNames List.Nodup)
    (h : Fragment.Fits (.value t) (.value s)) : s.Below (t.merge s) := by
  induction hs generalizing t with
  | scalar kind =>
    cases h.alike
    exact .scalar kind
  | collection kind _ ih =>
    obtain ⟨halike, parts⟩ := h
    cases halike
    rw [merge, if_pos rfl]
    exact .collection kind (ih (parts .members _ _ rfl rfl))
  | @object sources hnames' heach' ih =>
    obtain ⟨halike, parts⟩ := h
    cases halike with
    | object fields =>
      rw [merge]
      refine .object (fun name hname => mem_map_fst_mergeFields.mpr (.inr hname)) ?_
      intro name s v hmem hv
      have hsource := (Table.get?_eq_some_iff hnames').mpr hmem
      rw [get?_mergeFields fields hnames', hsource] at hv
      cases hfield : Table.get? fields name with
      | none =>
        rw [hfield, Option.merge_none_left] at hv
        exact Option.some.inj hv ▸ below_refl (heach' _ hmem)
      | some t =>
        rw [hfield] at hv
        refine Option.some.inj hv ▸ ih _ hmem (parts (.named name) _ _ ?_ ?_)
        · rw [child?_object, hfield]
          rfl
        · rw [child?_object, hsource]
          rfl

/-- If there is a bound of both shapes, a merge has all that its source has. -/
theorem below_merge_right (hs : s.FieldNames List.Nodup) (htu : t.Below u) (hsu : s.Below u) :
    s.Below (t.merge s) :=
  below_merge_of_fits hs (fits_of_below htu hsu)

/-- A merge has nothing but what every bound of both shapes has. -/
theorem merge_below (ht : t.FieldNames List.Nodup) (hs : s.FieldNames List.Nodup)
    (htu : t.Below u) (hsu : s.Below u) : (t.merge s).Below u := by
  induction hsu generalizing t with
  | scalar kind =>
    cases htu
    exact .scalar kind
  | collection kind _ ih =>
    cases hs with
    | collection _ hs =>
      cases ht with
      | collection _ ht =>
        cases htu with
        | collection _ members =>
          rw [merge, if_pos rfl]
          exact .collection kind (ih ht hs members)
      | _ => cases htu
  | @object sources bounds names' each' ih =>
    cases hs with
    | object hnames' heach' =>
      cases ht with
      | @object fields hnames heach =>
        cases htu with
        | object names each =>
          rw [merge]
          refine .object (fun name hname => ?_) fun name v u hv hu => ?_
          · exact (mem_map_fst_mergeFields.mp hname).elim (@names name) (@names' name)
          · rw [← Table.get?_eq_some_iff (nodup_map_fst_mergeFields sources hnames),
              get?_mergeFields fields hnames'] at hv
            refine forall_merge (Q := fun v => v.Below u) ?_ ?_ ?_ v hv
            · exact fun t ht => each name t u (Table.mem_of_get?_eq_some ht) hu
            · exact fun s hs => each' name s u (Table.mem_of_get?_eq_some hs) hu
            · intro t s ht hs htu _
              have hsource := Table.mem_of_get?_eq_some hs
              have hfield := Table.mem_of_get?_eq_some ht
              exact ih name s u hsource hu (heach _ hfield) (heach' _ hsource) htu
      | _ => cases htu

/-- A merge is above its target.  If there is a bound of both shapes, it is above its
source and below every such bound; and a merge in the other order differs in the
order of fields only. -/
theorem merge_leastUpperBound (ht : t.FieldNames List.Nodup) (hs : s.FieldNames List.Nodup) :
    t.Below (t.merge s) ∧
      (∀ u, t.Below u → s.Below u → s.Below (t.merge s) ∧ (t.merge s).Below u) ∧
        ((∃ u, t.Below u ∧ s.Below u) → (t.merge s).Rearranged (s.merge t)) := by
  refine ⟨below_merge_left ht hs, fun u htu hsu => ?_, ?_⟩
  · exact ⟨below_merge_right hs htu hsu, merge_below ht hs htu hsu⟩
  · rintro ⟨u, htu, hsu⟩
    -- each of the two merges is a bound of both shapes, so the other one is below it
    have hts := ht.merge keptByMerges_nodup hs
    have hst := hs.merge keptByMerges_nodup ht
    refine rearranged_of_below hts hst ?_ ?_
    · exact merge_below ht hs (below_merge_right ht hsu htu) (below_merge_left hs ht)
    · exact merge_below hs ht (below_merge_right hs htu hsu) (below_merge_left ht hs)

/-- Members with a key and a weight. -/
def keyedWeight : ElementType :=
  .collection .list (.object [("key", .scalar .string), ("weight", .scalar .int64)])

/-- Members with a note and a key. -/
def notedKey : ElementType :=
  .collection .list (.object [("note", .scalar .string), ("key", .scalar .string)])

/-- Members with a weight, a key, a note and an owner. -/
def ownedKey : ElementType :=
  .collection .list (.object [("weight", .scalar .int64), ("key", .scalar .string),
    ("note", .scalar .string), ("owner", .scalar .bool)])

/-- Which of two shapes is merged into the other one shows in the order of the
fields. -/
theorem merge_leastUpperBound_notedKey :
    (keyedWeight.FieldNames List.Nodup ∧ notedKey.FieldNames List.Nodup) ∧
      (keyedWeight.Below ownedKey ∧ notedKey.Below ownedKey) ∧
        (notedKey.Below (keyedWeight.merge notedKey) ∧
          (keyedWeight.merge notedKey).Below ownedKey) ∧
          (keyedWeight.merge notedKey).Rearranged (notedKey.merge keyedWeight) ∧
            keyedWeight.merge notedKey ≠ notedKey.merge keyedWeight := by
  have hkeyed : keyedWeight.FieldNames List.Nodup := by decide
  have hnoted : notedKey.FieldNames List.Nodup := by decide
  have hkeyed' : keyedWeight.Below ownedKey := by
    refine .collection .list ((below_object_iff (by decide)).mpr ?_)
    simp [Below.scalar]
  have hnoted' : notedKey.Below ownedKey := by
    refine .collection .list ((below_object_iff (by decide)).mpr ?_)
    simp [Below.scalar]
  obtain ⟨-, hleast, hrearranged⟩ := merge_leastUpperBound hkeyed hnoted
  refine ⟨⟨hkeyed, hnoted⟩, ⟨hkeyed', hnoted'⟩, hleast ownedKey hkeyed' hnoted',
    hrearranged ⟨ownedKey, hkeyed', hnoted'⟩, ?_⟩
  simp [keyedWeight, notedKey, merge, mergeFields, upsert]

end ProviderSchema.ElementType
